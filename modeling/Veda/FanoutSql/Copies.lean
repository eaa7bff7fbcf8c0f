import Veda.FanoutSql.Export

set_option autoImplicit false

/-!
# The SQL copy of the storage

The elements of a history of changes are exported one after another, each one again until its
transaction is committed. The rows of an individual are replaced whenever its new state is exported,
and stay when it is not. So the database is a copy of the storage as long as no individual that is
exported goes over to a state that is not: by a class, by its actual version, or because it is
removed.

## Main definitions

* `FanoutSql.Copies` — the database holds the rows of the states that are exported.
* `FanoutSql.Succeeds` — an element is handled until its transaction is committed.
* `FanoutSql.Honest` — a transaction that was not committed is not reported as done.
* `FanoutSql.Keeps`, `FanoutSql.FailsQuietly` — what a change and an attempt may do.
* `FanoutSql.Followed`, `FanoutSql.Kept` — the same for a history.

## Main results

* `FanoutSql.copies_iff` — one change.
* `FanoutSql.honest_iff` — the answers for one element.
* `FanoutSql.followed_iff` — a history of changes.
-/

namespace Veda.FanoutSql

open Veda.Lib Veda.Onto Veda.Mstorage

/-! ## Copies -/

/-- The rows that belong to a state. -/
def expectedRows (f : Formats) (onto : Onto) : Option State → Option (List (String × Row))
  | some s => if isExported onto s then rowsOf f (.stored String) s else some []
  | none => some []

/-- The database holds exactly the rows of the states that are exported. -/
def Copies (f : Formats) (w : World) (st : States) : Prop :=
  ∀ id, ∃ rows, expectedRows f w.ctx.onto (st.stateOf id) = some rows ∧
    (docRows w.db id).Perm rows

/-! ## Attempts -/

/-- Handle an element again and again. -/
def handle (f : Formats) (e : Element) (attempts : List Attempt) (w : World) : World :=
  attempts.foldl (fun w a => (process f a w e).2) w

/-- The transaction of an exported element is committed by the last attempt, and not before. -/
def Succeeds (f : Formats) (e : Element) : List Attempt → World → Prop
  | [], _ => False
  | a :: attempts, w =>
    (attempts = [] ∧ (isExported w.ctx.onto e.new = true → (process f a w e).1 = .committed)) ∨
    ((process f a w e).1 ≠ .committed ∧ Succeeds f e attempts (process f a w e).2)

/-- Every attempt that answers `Ok(true)` for an exported element has committed its transaction. -/
def Honest (f : Formats) (e : Element) : List Attempt → World → Prop
  | [], _ => True
  | a :: attempts, w =>
    (isExported w.ctx.onto e.new = true → (process f a w e).1.answer = some (.ok true) →
      (process f a w e).1 = .committed) ∧
    Honest f e attempts (process f a w e).2

/-- A statement of the transaction fails, and the transaction is rolled back without a failure. -/
def FailsQuietly (f : Formats) (e : Element) (a : Attempt) (w : World) : Prop :=
  a.getConn = true ∧ a.startTransaction = true ∧ a.rollback = true ∧
    ∃ tr, exportStatements f a e.new e.prev (classesOf e.new) e.prevState.isNone
      ⟨w.ctx.tables, w.db, 0, false⟩ = .ok tr ∧ tr.trError = true

/-- No attempt fails quietly. -/
def NoneQuiet (f : Formats) (e : Element) : List Attempt → World → Prop
  | [], _ => True
  | a :: attempts, w =>
    (isExported w.ctx.onto e.new = true → ¬ FailsQuietly f e a w) ∧
    NoneQuiet f e attempts (process f a w e).2

section Attempts

variable {f : Formats} {e : Element} {attempts : List Attempt} {w : World}

@[simp] theorem onto_handle (f : Formats) (e : Element) (attempts : List Attempt) (w : World) :
    (handle f e attempts w).ctx.onto = w.ctx.onto := by
  induction attempts generalizing w with
  | nil => rfl
  | cons a attempts ih =>
    rw [handle, List.foldl_cons]
    exact (ih _).trans (onto_process f a w e)

theorem handle_of_not_exported (h : isExported w.ctx.onto e.new = false) :
    handle f e attempts w = w := by
  induction attempts with
  | nil => rfl
  | cons a attempts ih =>
    rw [handle, List.foldl_cons, process_of_not_exported h]
    exact ih

theorem docRows_handle (hexported : isExported w.ctx.onto e.new = true)
    (hsucceeds : Succeeds f e attempts w)
    (hprev : ∀ π, ∀ x ∈ docRows w.db e.new.uri, e.prevState.isNone = false ∧
      x.1 ∈ deletedTables f (entries π e.prev)) :
    (∃ π rows, rowsOf f π e.new = some rows ∧
      docRows (handle f e attempts w).db e.new.uri = rows) ∧
    ∀ id, id ≠ e.new.uri → docRows (handle f e attempts w).db id = docRows w.db id := by
  induction attempts generalizing w with
  | nil => exact hsucceeds.elim
  | cons a attempts ih =>
    rw [handle, List.foldl_cons]
    rcases hsucceeds with ⟨rfl, hcommitted⟩ | ⟨hne, hrest⟩
    · obtain ⟨⟨rows, hrows, hdoc⟩, hothers⟩ :=
        docRows_committed (hcommitted hexported) (hprev a.prevOrder)
      exact ⟨⟨a.order, rows, hrows, hdoc⟩, hothers⟩
    · have hsame : ∀ id, docRows (process f a w e).2.db id = docRows w.db id := fun id => by
        rw [docRows, docRows, rows_process_of_ne_committed hne]
      obtain ⟨hown, hothers⟩ := ih (by rw [onto_process]; exact hexported) hrest
        (fun π x hx => hprev π x (hsame e.new.uri ▸ hx))
      exact ⟨hown, fun id hid => (hothers id hid).trans (hsame id)⟩

theorem committed_iff {a : Attempt} (hexported : isExported w.ctx.onto e.new = true) :
    ((process f a w e).1.answer = some (.ok true) → (process f a w e).1 = .committed) ↔
      ¬ FailsQuietly f e a w := by
  have hactual : ¬ (!isActual e.new) = true := by
    rw [isExported, Bool.and_eq_true] at hexported
    simp [hexported.2]
  rw [process_eq, if_pos hexported, exportState, if_neg hactual]
  unfold FailsQuietly
  cases hconn : a.getConn with
  | false => simp [Ending.answer]
  | true =>
    cases hstart : a.startTransaction with
    | false => simp [Ending.answer]
    | true =>
      rw [if_neg (by simp), if_neg (by simp)]
      cases hstatements : exportStatements f a e.new e.prev (classesOf e.new) e.prevState.isNone
          ⟨w.ctx.tables, w.db, 0, false⟩ with
      | error tr => simp [endTransaction, Ending.answer]
      | ok tr =>
        cases herror : tr.trError <;> cases hrollback : a.rollback <;>
          cases hcommit : a.commit <;> simp [endTransaction, Ending.answer, herror, hrollback, hcommit]

/-- **The answers** for an element are honest exactly when no attempt fails quietly. -/
theorem honest_iff : Honest f e attempts w ↔ NoneQuiet f e attempts w := by
  induction attempts generalizing w with
  | nil => exact Iff.rfl
  | cons a attempts ih =>
    rw [Honest, NoneQuiet, ih]
    exact and_congr_left fun _ => forall_congr' fun hexported => committed_iff hexported

end Attempts

/-! ## The rows of a state -/

section Rows

variable {f : Formats} {onto : Onto} {s : State}

theorem mem_entries {π : IterOrder String} {p : String} {r : Resource} :
    (p, r) ∈ entries π s ↔ ∃ vs, s.obj.resources.lookup p = some vs ∧ r ∈ vs := by
  simp only [entries, List.mem_flatMap, List.mem_map, Prod.mk.injEq, Prod.exists]
  constructor
  · rintro ⟨p', vs, hmem, r', hr', rfl, rfl⟩
    exact ⟨vs, (HashMap.mem_iter _ _ _ _).mp hmem, hr'⟩
  · rintro ⟨vs, hlookup, hr⟩
    exact ⟨p, vs, (HashMap.mem_iter _ _ _ _).mpr hlookup, r, hr, rfl, rfl⟩

theorem entries_perm (π π' : IterOrder String) (s : State) :
    (entries π s).Perm (entries π' s) :=
  (((π.perm _).trans (π'.perm _).symm).filterMap _).flatMap_right _

theorem rowsOf_perm {π : IterOrder String} {rows : List (String × Row)}
    (h : rowsOf f π s = some rows) (π' : IterOrder String) :
    ∃ rows', rowsOf f π' s = some rows' ∧ rows.Perm rows' := by
  obtain ⟨created, hcreated, hmap⟩ := Option.bind_eq_some_iff.mp h
  obtain ⟨rows', hmap', hperm⟩ := exists_mapM_of_perm
    (List.Perm.flatMap_left _ fun cls _ => (entries_perm π π' s).map fun e => (cls, e)) hmap
  refine ⟨rows', ?_, hperm⟩
  rw [rowsOf, hcreated]
  exact hmap'

theorem mem_deletedTables {π : IterOrder String} {rows : List (String × Row)}
    (h : rowsOf f π s = some rows) {x : String × Row} (hx : x ∈ rows) (π' : IterOrder String) :
    x.1 ∈ deletedTables f (entries π' s) := by
  obtain ⟨created, -, hmap⟩ := Option.bind_eq_some_iff.mp h
  obtain ⟨⟨cls, p, r⟩, hitem, htable, -⟩ := exists_of_mem_rows hmap hx
  obtain ⟨cls', -, hentry⟩ := List.mem_flatMap.mp hitem
  obtain ⟨entry, hentry, heq⟩ := List.mem_map.mp hentry
  obtain ⟨rfl, rfl⟩ := Prod.mk.inj heq
  obtain ⟨vs, hlookup, -⟩ := mem_entries.mp hentry
  obtain ⟨first, rest, rfl, hfirst⟩ := s.numbered _ _ hlookup
  refine List.mem_filterMap.mpr
    ⟨(p, first), mem_entries.mpr ⟨_, hlookup, List.mem_cons_self⟩, ?_⟩
  rw [if_pos hfirst]
  exact htable

theorem rowsOf_ne_nil (hexported : isExported onto s = true) {π : IterOrder String}
    {rows : List (String × Row)} (h : rowsOf f π s = some rows) : rows ≠ [] := by
  obtain ⟨created, -, hmap⟩ := Option.bind_eq_some_iff.mp h
  rw [isExported, Bool.and_eq_true, List.any_eq_true] at hexported
  obtain ⟨⟨cls, hcls, -⟩, -⟩ := hexported
  have hentry : ∃ r, ("rdf:type", r) ∈ entries π s := by
    cases hlookup : s.obj.resources.lookup "rdf:type" with
    | none =>
      rw [classesOf, State.get_of_lookup_none hlookup] at hcls
      cases hcls
    | some vs =>
      obtain ⟨r, rest, rfl, -⟩ := s.numbered _ _ hlookup
      exact ⟨r, mem_entries.mpr ⟨_, hlookup, List.mem_cons_self⟩⟩
  obtain ⟨r, hentry⟩ := hentry
  rintro rfl
  have hnil := List.map_eq_nil_iff.mp (mapM_eq_some.mp hmap)
  have hitem : (cls, "rdf:type", r) ∈ items π (classesOf s) s :=
    List.mem_flatMap.mpr ⟨cls, hcls, List.mem_map.mpr ⟨_, hentry, rfl⟩⟩
  rw [hnil] at hitem
  cases hitem

end Rows

/-! ## A change -/

/-- The individual is stored with a state that is exported. -/
def WasExported (onto : Onto) (st : States) (id : String) : Prop :=
  ∃ before, st.stateOf id = some before ∧ isExported onto before = true

/-- An individual that is exported stays so. -/
def Keeps (onto : Onto) (st : States) : Change → Prop
  | .put state => WasExported onto st state.uri → isExported onto state = true
  | .remove mark _ => ¬ WasExported onto st mark.uri

/-- Handle elements one after another, each with the attempts of its number. -/
def handleAll (f : Formats) (attempts : ℕ → List Attempt) (es : List Element) (w : World) : World :=
  es.foldl (fun w e => handle f e (attempts e.opId) w) w

/-- A property of the attempts of every element. -/
def ForEach (f : Formats) (attempts : ℕ → List Attempt)
    (P : Element → List Attempt → World → Prop) : List Element → World → Prop
  | [], _ => True
  | e :: es, w =>
    P e (attempts e.opId) w ∧ ForEach f attempts P es (handle f e (attempts e.opId) w)

section Change

variable {f : Formats} {attempts : ℕ → List Attempt} {w : World} {st : States} {opId : ℕ}

@[simp] theorem onto_handleAll (f : Formats) (attempts : ℕ → List Attempt) (es : List Element)
    (w : World) : (handleAll f attempts es w).ctx.onto = w.ctx.onto := by
  induction es generalizing w with
  | nil => rfl
  | cons e es ih =>
    rw [handleAll, List.foldl_cons]
    exact (ih _).trans (onto_handle f e _ w)

theorem forEach_congr {P Q : Element → List Attempt → World → Prop}
    (h : ∀ e as w, P e as w ↔ Q e as w) {es : List Element} :
    ForEach f attempts P es w ↔ ForEach f attempts Q es w := by
  induction es generalizing w with
  | nil => exact Iff.rfl
  | cons e es ih => exact and_congr (h _ _ _) ih

theorem docRows_eq_nil_iff (h : Copies f w st) (id : String) :
    docRows w.db id = [] ↔ ¬ WasExported w.ctx.onto st id := by
  obtain ⟨rows, hrows, hperm⟩ := h id
  have hnil : docRows w.db id = [] ↔ rows = [] :=
    ⟨fun hdoc => (hdoc ▸ hperm).nil_eq.symm, fun hrows => (hrows ▸ hperm).eq_nil⟩
  rw [hnil]
  unfold WasExported
  cases hstate : st.stateOf id with
  | none =>
    rw [hstate] at hrows
    rw [← Option.some.inj hrows]
    refine iff_of_true rfl ?_
    rintro ⟨_, hbefore, -⟩
    cases hbefore
  | some s =>
    rw [hstate] at hrows
    dsimp only [expectedRows] at hrows
    by_cases hexported : isExported w.ctx.onto s = true
    · rw [if_pos hexported] at hrows
      exact iff_of_false (rowsOf_ne_nil hexported hrows) fun hnot => hnot ⟨s, rfl, hexported⟩
    · rw [if_neg hexported] at hrows
      refine iff_of_true (Option.some.inj hrows).symm ?_
      rintro ⟨before, hbefore, hexp⟩
      rw [Option.some.inj hbefore] at hexported
      exact hexported hexp

theorem docRows_subset (h : Copies f w st) {id : String} {x : String × Row}
    (hx : x ∈ docRows w.db id) (π : IterOrder String) :
    (st.stateOf id).isNone = false ∧
      x.1 ∈ deletedTables f (entries π ((st.stateOf id).getD .empty)) := by
  obtain ⟨rows, hrows, hperm⟩ := h id
  have hx' := hperm.mem_iff.mp hx
  cases hstate : st.stateOf id with
  | none =>
    rw [hstate] at hrows
    rw [← Option.some.inj hrows] at hx'
    cases hx'
  | some s =>
    rw [hstate] at hrows
    dsimp only [expectedRows] at hrows
    split_ifs at hrows
    · exact ⟨rfl, mem_deletedTables hrows hx' π⟩
    · rw [← Option.some.inj hrows] at hx'
      cases hx'

theorem copies_of_same_rows (h : Copies f w st) {c : Change}
    (hnext : expectedRows f w.ctx.onto (States.next c) = some []) :
    Copies f w (st.apply c) ↔ ¬ WasExported w.ctx.onto st c.id := by
  rw [← docRows_eq_nil_iff h]
  constructor
  · intro hcopies
    obtain ⟨rows, hrows, hperm⟩ := hcopies c.id
    rw [States.stateOf_apply_self, hnext] at hrows
    rw [← Option.some.inj hrows] at hperm
    exact hperm.eq_nil
  · intro hnil id
    by_cases hid : id = c.id
    · rw [hid, States.stateOf_apply_self, hnil]
      exact ⟨[], hnext, .nil⟩
    · rw [States.stateOf_apply_of_ne st hid]
      exact h id

/-- **One change**: the database is a copy afterwards exactly when an individual that was exported
stays so. -/
theorem copies_iff (h : Copies f w st) (c : Change)
    (hsucceeds : ForEach f attempts (Succeeds f) (c.elements st opId) w) :
    Copies f (handleAll f attempts (c.elements st opId) w) (st.apply c) ↔
      Keeps w.ctx.onto st c := by
  cases c with
  | put state =>
    obtain ⟨hsucceeds, -⟩ := hsucceeds
    let e : Element := ⟨.put, opId + 1, st.stateOf state.uri, some state⟩
    show Copies f (handle f e (attempts (opId + 1)) w) (st.apply (.put state)) ↔ _
    cases hexported : isExported w.ctx.onto state with
    | false =>
      rw [handle_of_not_exported hexported, copies_of_same_rows h (c := .put state)
        (by rw [States.next, expectedRows, hexported]; rfl), Keeps, hexported]
      exact ⟨fun hnot hwas => (hnot hwas).elim, fun hkeeps hwas =>
        absurd (hkeeps hwas) Bool.false_ne_true⟩
    | true =>
      refine iff_of_true (fun id => ?_) fun _ => hexported
      obtain ⟨⟨π, rows, hrows, hdoc⟩, hothers⟩ := docRows_handle (e := e) hexported hsucceeds
        fun π x hx => docRows_subset h hx π
      rw [onto_handle]
      by_cases hid : id = (Change.put state).id
      · rw [hid, States.stateOf_apply_self]
        obtain ⟨rows', hrows', hperm⟩ := rowsOf_perm hrows (.stored String)
        refine ⟨rows', ?_, ?_⟩
        · rw [States.next, expectedRows, if_pos hexported]
          exact hrows'
        · rw [show docRows (handle f e (attempts (opId + 1)) w).db (Change.put state).id = rows
            from hdoc]
          exact hperm
      · rw [States.stateOf_apply_of_ne st hid, hothers id hid]
        exact h id
  | remove mark isMark =>
    have hmark : isExported w.ctx.onto mark = false := by
      rw [isExported, classesOf, State.get_of_lookup_none (isMark.rest _ (by decide) (by decide))]
      rfl
    have hsame : handleAll f attempts ((Change.remove mark isMark).elements st opId) w = w := by
      rw [Change.elements, handleAll, List.foldl_cons, handle_of_not_exported hmark,
        List.foldl_cons, handle_of_not_exported rfl]
      rfl
    rw [hsame]
    exact copies_of_same_rows h rfl

end Change

/-! ## A history -/

/-- After every change of a history the database is a copy, and all answers are honest. -/
def Followed (f : Formats) (attempts : ℕ → List Attempt) :
    World → States → ℕ → List Change → Prop
  | _, _, _, [] => True
  | w, st, opId, c :: cs =>
    let w' := handleAll f attempts (c.elements st opId) w
    (Copies f w' (st.apply c) ∧ ForEach f attempts (Honest f) (c.elements st opId) w) ∧
      Followed f attempts w' (st.apply c) (opId + (c.elements st opId).length) cs

/-- Every element of a history is handled until its transaction is committed. -/
def SucceedsAlong (f : Formats) (attempts : ℕ → List Attempt) :
    World → States → ℕ → List Change → Prop
  | _, _, _, [] => True
  | w, st, opId, c :: cs =>
    ForEach f attempts (Succeeds f) (c.elements st opId) w ∧
      SucceedsAlong f attempts (handleAll f attempts (c.elements st opId) w) (st.apply c)
        (opId + (c.elements st opId).length) cs

/-- No individual that is exported goes over to a state that is not, and no attempt fails
quietly. -/
def Kept (f : Formats) (attempts : ℕ → List Attempt) :
    World → States → ℕ → List Change → Prop
  | _, _, _, [] => True
  | w, st, opId, c :: cs =>
    (Keeps w.ctx.onto st c ∧ ForEach f attempts (NoneQuiet f) (c.elements st opId) w) ∧
      Kept f attempts (handleAll f attempts (c.elements st opId) w) (st.apply c)
        (opId + (c.elements st opId).length) cs

/-- **A history of changes**: the database is a copy of the storage after every change, and the
answers are honest, exactly when no individual that is exported goes over to a state that is not and
no attempt fails quietly. -/
theorem followed_iff {f : Formats} {attempts : ℕ → List Attempt} {w : World} {st : States}
    {opId : ℕ} (h : Copies f w st) {cs : List Change}
    (hsucceeds : SucceedsAlong f attempts w st opId cs) :
    Followed f attempts w st opId cs ↔ Kept f attempts w st opId cs := by
  induction cs generalizing w st opId with
  | nil => exact Iff.rfl
  | cons c cs ih =>
    obtain ⟨hfirst, hrest⟩ := hsucceeds
    have hcopies := copies_iff h c hfirst
    rw [Followed, Kept, hcopies, forEach_congr fun _ _ _ => honest_iff]
    refine and_congr_right fun hkept => ?_
    exact ih (hcopies.mpr hkept.1) hrest

/-! ### A document -/

/-- Texts of names in lower case; times are not shown. -/
def plainFormats : Formats := ⟨String.toLower, fun _ => none, Float.toString⟩

/-- The program with an empty database; documents are exportable. -/
def newWorld : World :=
  ⟨⟨Onto.empty.relate "v-s:Exportable" "d:Document" .sub, ∅⟩, ⟨∅, []⟩⟩

/-- Every statement succeeds, and the transaction is committed. -/
def committing : Attempt :=
  ⟨true, true, fun _ => true, true, true, .stored String, .stored String⟩

def document : State := (State.named "d:doc").addValue "rdf:type" .uri (.uri "d:Document")

def titledDocument : State := document.addValue "v-s:title" .string (.str "Title" .none)

theorem copies_newWorld (f : Formats) : Copies f newWorld .none := fun _ => ⟨[], rfl, .nil⟩

theorem committed_document :
    (process plainFormats committing newWorld ⟨.put, 1, none, some document⟩).1 = .committed := by
  decide +kernel

/-- A document that gets a title. -/
theorem followed_titledDocument :
    Followed plainFormats (fun _ => [committing]) newWorld .none 0
      [.put document, .put titledDocument] := by
  have hfirst : (process plainFormats committing newWorld ⟨.put, 1, none, some document⟩).1 =
      .committed := committed_document
  have hsecond : (process plainFormats committing
      (process plainFormats committing newWorld ⟨.put, 1, none, some document⟩).2
      ⟨.put, 2, some document, some titledDocument⟩).1 = .committed := by decide +kernel
  have hsucceeds : SucceedsAlong plainFormats (fun _ => [committing]) newWorld .none 0
      [.put document, .put titledDocument] :=
    ⟨⟨.inl ⟨rfl, fun _ => hfirst⟩, trivial⟩, ⟨.inl ⟨rfl, fun _ => hsecond⟩, trivial⟩, trivial⟩
  refine (followed_iff (copies_newWorld plainFormats) hsucceeds).mpr
    ⟨⟨fun _ => by decide +kernel, ⟨fun hexported => ?_, trivial⟩, trivial⟩,
      ⟨fun _ => by decide +kernel, ⟨fun hexported => ?_, trivial⟩, trivial⟩, trivial⟩
  · exact (committed_iff hexported).mp fun _ => hfirst
  · exact (committed_iff hexported).mp fun _ => hsecond

/-- The rows of a document stay when it is removed. -/
theorem not_followed_removedDocument :
    Copies plainFormats newWorld .none ∧
    SucceedsAlong plainFormats (fun _ => [committing]) newWorld .none 0
      [.put document, .remove (markOf "d:doc" 2) (isMark_markOf "d:doc" 2)] ∧
    ¬ Followed plainFormats (fun _ => [committing]) newWorld .none 0
      [.put document, .remove (markOf "d:doc" 2) (isMark_markOf "d:doc" 2)] := by
  have hsucceeds : SucceedsAlong plainFormats (fun _ => [committing]) newWorld .none 0
      [.put document, .remove (markOf "d:doc" 2) (isMark_markOf "d:doc" 2)] := by
    refine ⟨⟨.inl ⟨rfl, fun _ => committed_document⟩, trivial⟩,
      ⟨.inl ⟨rfl, fun hexported => ?_⟩, .inl ⟨rfl, fun hexported => ?_⟩, trivial⟩, trivial⟩
    · rw [onto_handleAll] at hexported
      exact absurd hexported (by decide +kernel)
    · rw [onto_handle, onto_handleAll] at hexported
      exact absurd hexported (by decide +kernel)
  refine ⟨copies_newWorld plainFormats, hsucceeds, fun hfollowed => ?_⟩
  obtain ⟨hput, hremove, -⟩ := hfollowed
  refine (copies_iff hput.1 _ hsucceeds.2.1).mp hremove.1 ⟨document, rfl, ?_⟩
  rw [onto_handleAll]
  decide +kernel

end Veda.FanoutSql
