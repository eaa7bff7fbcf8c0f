import Veda.SearchIndex.PredicateTables
import Mathlib.Algebra.Order.BigOperators.Group.List

set_option autoImplicit false

/-!
# A batch that is read again

When the program stops in the middle of a batch, some tables of its blocks were inserted and written
to the log. The batch is read again, with this log. A predicate of an element is then skipped if its
table is in the log, and so the tables of the predicates are right. The texts of an element are
collected from the predicates that are not skipped, though, and their row is inserted whether the
table `text` is in the log or not.

## Main definitions

* `SearchIndexPt.Batch` — the elements of a batch, and the blocks that are made of them.
* `SearchIndexPt.newUnits` — the elements of the blocks that are not repeated.
* `SearchIndexPt.AddsNothing` — nothing is inserted twice, and everything else as it would have
  been.
* `SearchIndexPt.TextTogether` — the condition.

## Main results

* `SearchIndexPt.tableAt_processUnits` — the rows of a table.
* `SearchIndexPt.addsNothing_iff` — nothing is added if and only if the texts of each element
  are in the log together with their predicates.
-/

namespace Veda.SearchIndexPt

open Veda.Lib Veda.Onto Veda.Mstorage

/-! ## Elements that are not repeated -/

/-- The operation was taken before for this type. -/
def isSeen (seen : List (String × BatchElement)) (typeName : String) (el : BatchElement) : Bool :=
  seen.any fun s => s.1 = typeName ∧ signedOp s.2 = signedOp el

/-- The elements of a block that are not repeated. -/
def newElements (typeName : String) : List (String × BatchElement) → List BatchElement →
    List BatchElement
  | _, [] => []
  | seen, el :: batch =>
    if isSeen seen typeName el then newElements typeName ((typeName, el) :: seen) batch
    else el :: newElements typeName ((typeName, el) :: seen) batch

/-- The elements of the blocks that are not repeated. -/
def newUnits : List (String × BatchElement) → List (String × List BatchElement) →
    List (String × List BatchElement)
  | _, [] => []
  | seen, unit :: work =>
    (unit.1, newElements unit.1 seen unit.2) ::
      newUnits (unit.2.map (fun el => (unit.1, el)) ++ seen) work

/-- The type and the operation of each element. -/
def keysOf (units : List (String × List BatchElement)) : List (String × ℤ) :=
  units.flatMap fun unit => unit.2.map fun el => (unit.1, signedOp el)

section New

variable {typeName : String} {seen : List (String × BatchElement)} {batch : List BatchElement}
  {units : List (String × List BatchElement)}

theorem isSeen_iff {el : BatchElement} :
    isSeen seen typeName el ↔ (typeName, signedOp el) ∈ seen.map fun s => (s.1, signedOp s.2) := by
  simp [isSeen]

theorem newElements_new (typeName : String) (seen : List (String × BatchElement))
    (batch : List BatchElement) :
    ((newElements typeName seen batch).map signedOp).Nodup ∧
      ∀ el ∈ newElements typeName seen batch, el ∈ batch ∧ isSeen seen typeName el = false := by
  induction batch generalizing seen with
  | nil => simp [newElements]
  | cons el batch ih =>
    obtain ⟨hnodup, hnew⟩ := ih ((typeName, el) :: seen)
    have hseen : ∀ x ∈ newElements typeName ((typeName, el) :: seen) batch,
        signedOp el ≠ signedOp x ∧ isSeen seen typeName x = false := by
      intro x hx
      have h := (hnew x hx).2
      rw [isSeen, List.any_cons, Bool.or_eq_false_iff] at h
      exact ⟨by simpa using h.1, h.2⟩
    rw [newElements]
    split_ifs with hel
    · exact ⟨hnodup, fun x hx => ⟨List.mem_cons_of_mem _ (hnew x hx).1, (hseen x hx).2⟩⟩
    · refine ⟨?_, fun x hx => ?_⟩
      · rw [List.map_cons, List.nodup_cons]
        refine ⟨fun hmem => ?_, hnodup⟩
        obtain ⟨x, hx, heq⟩ := List.mem_map.mp hmem
        exact (hseen x hx).1 heq.symm
      · rcases List.mem_cons.mp hx with rfl | hx
        · exact ⟨List.mem_cons_self, Bool.not_eq_true _ ▸ hel⟩
        · exact ⟨List.mem_cons_of_mem _ (hnew x hx).1, (hseen x hx).2⟩

theorem nodup_keysOf_newUnits (seen : List (String × BatchElement))
    (units : List (String × List BatchElement)) :
    (keysOf (newUnits seen units)).Nodup ∧
      ∀ key ∈ keysOf (newUnits seen units), key ∉ seen.map fun s => (s.1, signedOp s.2) := by
  induction units generalizing seen with
  | nil => simp [newUnits, keysOf]
  | cons unit work ih =>
    obtain ⟨hnodup, hnew⟩ := ih (unit.2.map (fun el => (unit.1, el)) ++ seen)
    obtain ⟨hnodupHere, hnewHere⟩ := newElements_new unit.1 seen unit.2
    rw [newUnits, keysOf, List.flatMap_cons]
    constructor
    · refine List.nodup_append.mpr ⟨?_, hnodup, ?_⟩
      · refine List.Nodup.of_map Prod.snd ?_
        rw [List.map_map]
        exact hnodupHere
      · rintro key hkey key' hkey' rfl
        obtain ⟨el, hel, rfl⟩ := List.mem_map.mp hkey
        refine hnew _ hkey' ?_
        rw [List.map_append, List.mem_append, List.map_map]
        exact .inl (List.mem_map.mpr ⟨el, (hnewHere el hel).1, rfl⟩)
    · intro key hkey
      rcases List.mem_append.mp hkey with hkey | hkey
      · obtain ⟨el, hel, rfl⟩ := List.mem_map.mp hkey
        intro hseen
        have h := (hnewHere el hel).2
        rw [isSeen_iff.mpr hseen] at h
        cases h
      · intro hseen
        refine hnew key hkey ?_
        rw [List.map_append]
        exact List.mem_append_right _ hseen

theorem index_eq {k k' : ℕ} {t : String} {els els' : List BatchElement} {el el' : BatchElement}
    (hk : (newUnits [] units)[k]? = some (t, els)) (hk' : (newUnits [] units)[k']? = some (t, els'))
    (hel : el ∈ els) (hel' : el' ∈ els') (hop : signedOp el = signedOp el') : k = k' := by
  have hpairwise := (List.nodup_flatMap.mp (nodup_keysOf_newUnits [] units).1).2
  rw [List.pairwise_iff_getElem] at hpairwise
  obtain ⟨hlt, hget⟩ := List.getElem?_eq_some_iff.mp hk
  obtain ⟨hlt', hget'⟩ := List.getElem?_eq_some_iff.mp hk'
  have hkey : (t, signedOp el) ∈ ((newUnits [] units)[k].2.map fun el =>
      ((newUnits [] units)[k].1, signedOp el)) := by
    rw [hget]
    exact List.mem_map_of_mem hel
  have hkey' : (t, signedOp el) ∈ ((newUnits [] units)[k'].2.map fun el =>
      ((newUnits [] units)[k'].1, signedOp el)) := by
    rw [hget', hop]
    exact List.mem_map_of_mem hel'
  rcases Nat.lt_trichotomy k k' with h | h | h
  · exact absurd hkey' (hpairwise k k' hlt hlt' h hkey)
  · exact h
  · exact absurd hkey (hpairwise k' k hlt' hlt h hkey')

end New

/-! ## The tables of the blocks -/

/-- The entries of a table. -/
def tableOf (predicate : String) (entries : List (String × Row)) : List Row :=
  (entries.filter fun entry => entry.1 = predicate).map Prod.snd

section Run

variable {π : IterOrder String} {committed₀ committed : CommittedTypesPropsOps}
  {seen : List (String × BatchElement)} {typeName : String}

/-- No two elements of a type have the same operation. -/
def OneState (els : List (String × BatchElement)) : Prop :=
  ∀ t el el', (t, el) ∈ els → (t, el') ∈ els → signedOp el = signedOp el' → el = el'

/-- What is committed: what was at first, and what was taken since. -/
def Since (π : IterOrder String) (committed₀ committed : CommittedTypesPropsOps)
    (seen : List (String × BatchElement)) : Prop :=
  ∀ t p op, op ∈ opsOf committed t p ↔ op ∈ opsOf committed₀ t p ∨
    ∃ el, (t, el) ∈ seen ∧ p ∈ getPredicates π el ∧ op = signedOp el

theorem since_self (committed : CommittedTypesPropsOps) : Since π committed committed [] :=
  fun _ _ _ => by simp

theorem Since.cons (h : Since π committed₀ committed seen) (tables : PredicateTables)
    (typeName : String) (el : BatchElement) :
    Since π committed₀ (addToTables π typeName (committed, tables) el).1
      ((typeName, el) :: seen) := by
  intro t p op
  rw [mem_opsOf_addToTables, h t p op]
  constructor
  · rintro (⟨rfl, hp, rfl⟩ | hold | ⟨el', hel', hp, rfl⟩)
    · exact .inr ⟨el, List.mem_cons_self, hp, rfl⟩
    · exact .inl hold
    · exact .inr ⟨el', List.mem_cons_of_mem _ hel', hp, rfl⟩
  · rintro (hold | ⟨el', hel', hp, rfl⟩)
    · exact .inr (.inl hold)
    · rcases List.mem_cons.mp hel' with heq | hel'
      · obtain ⟨rfl, rfl⟩ := Prod.mk.inj heq
        exact .inl ⟨rfl, hp, rfl⟩
      · exact .inr (.inr ⟨el', hel', hp, rfl⟩)

theorem Since.keptBy_eq (h : Since π committed₀ committed seen) {el : BatchElement}
    (hone : OneState ((typeName, el) :: seen)) :
    keptBy π typeName el committed =
      if isSeen seen typeName el then [] else keptBy π typeName el committed₀ := by
  unfold keptBy
  split_ifs with hseen
  · rw [isSeen, List.any_eq_true] at hseen
    obtain ⟨⟨t, el'⟩, hmem, hkey⟩ := hseen
    obtain ⟨rfl, hop⟩ : t = typeName ∧ signedOp el' = signedOp el := by simpa using hkey
    obtain rfl : el' = el :=
      hone t el' el (List.mem_cons_of_mem _ hmem) List.mem_cons_self hop
    refine List.filter_eq_nil_iff.mpr fun p hp => ?_
    rw [decide_eq_true_eq, not_not]
    exact (h t p _).mpr (.inr ⟨el', hmem, hp, rfl⟩)
  · refine List.filter_congr fun p hp => ?_
    rw [decide_eq_decide, h typeName p, not_or, and_iff_left]
    rintro ⟨el', hmem, -, hop⟩
    refine hseen (List.any_eq_true.mpr ⟨_, hmem, ?_⟩)
    simpa using hop.symm

theorem Since.processBatch (h : Since π committed₀ committed seen) (typeName : String)
    (batch : List BatchElement) (tables : PredicateTables)
    (hone : OneState (batch.map (fun el => (typeName, el)) ++ seen)) :
    let processed := batch.foldl (addToTables π typeName) (committed, tables)
    Since π committed₀ processed.1 (batch.map (fun el => (typeName, el)) ++ seen) ∧
      processed.2 = ((newElements typeName seen batch).flatMap fun el =>
        rowsFor typeName el (keptBy π typeName el committed₀)).foldl
          (fun m p => m.pushAt p.1 p.2) tables := by
  induction batch generalizing committed seen tables with
  | nil => exact ⟨h, rfl⟩
  | cons el batch ih =>
    -- the elements of the block and those before it, in another order
    have hmem : ∀ s, s ∈ batch.map (fun el => (typeName, el)) ++ (typeName, el) :: seen ↔
        s ∈ (el :: batch).map (fun el => (typeName, el)) ++ seen := by
      intro s
      simp only [List.map_cons, List.cons_append, List.mem_append, List.mem_cons]
      tauto
    have hkept := h.keptBy_eq (fun t x y hx hy => hone t x y
      ((hmem _).mp (List.mem_append_right _ hx)) ((hmem _).mp (List.mem_append_right _ hy)))
    obtain ⟨hsince, htables⟩ := ih (h.cons tables typeName el)
      (addToTables π typeName (committed, tables) el).2
      (fun t x y hx hy => hone t x y ((hmem _).mp hx) ((hmem _).mp hy))
    refine ⟨fun t p op => ?_, ?_⟩
    · rw [List.foldl_cons, hsince t p op]
      simp only [hmem]
    · rw [List.foldl_cons, htables, addToTables_eq, hkept, newElements]
      split_ifs
      · rfl
      · rw [List.flatMap_cons, List.foldl_append]

/-- The rows of the elements of a block that are not repeated. -/
def rowsAt (π : IterOrder String) (committed₀ : CommittedTypesPropsOps)
    (newOnes : List (String × List BatchElement)) (k : ℕ) (predicate : String) : List Row :=
  match newOnes[k]? with
  | some (t, els) =>
    els.flatMap fun el => tableOf predicate (rowsFor t el (keptBy π t el committed₀))
  | none => []

/-- All elements of the blocks, with their types. -/
def elementsOf (units : List (String × List BatchElement)) : List (String × BatchElement) :=
  units.flatMap fun unit => unit.2.map fun el => (unit.1, el)

/-- **The rows of a table** of a block. -/
theorem tableAt_processUnits {units : List (String × List BatchElement)}
    (h : Since π committed₀ committed seen) (hone : OneState (elementsOf units ++ seen)) (k : ℕ)
    (predicate : String) :
    tableAt (processUnits π committed units) k predicate =
      rowsAt π committed₀ (newUnits seen units) k predicate := by
  induction units generalizing committed seen k with
  | nil => simp [processUnits, newUnits, tableAt, rowsAt]
  | cons unit work ih =>
    have hmem : ∀ s, s ∈ elementsOf work ++ (unit.2.map (fun el => (unit.1, el)) ++ seen) ↔
        s ∈ elementsOf (unit :: work) ++ seen := by
      intro s
      simp only [elementsOf, List.flatMap_cons, List.mem_append]
      tauto
    obtain ⟨hsince, htables⟩ := h.processBatch unit.1 unit.2 ∅ (fun t x y hx hy => hone t x y
      ((hmem _).mp (List.mem_append_right _ hx)) ((hmem _).mp (List.mem_append_right _ hy)))
    cases k with
    | zero =>
      have hrows := HashMap.lookup_foldl_pushAt ((newElements unit.1 seen unit.2).flatMap fun el =>
        rowsFor unit.1 el (keptBy π unit.1 el committed₀)) ∅ predicate
      rw [AList.lookup_empty, Option.getD_none, List.nil_append, List.filter_flatMap,
        List.map_flatMap] at hrows
      rw [processUnits, newUnits, rowsAt, tableAt, SearchIndexPt.processBatch, htables]
      exact hrows
    | succ k =>
      exact ih hsince (fun t x y hx hy => hone t x y ((hmem _).mp hx) ((hmem _).mp hy)) k

end Run

/-! ## Texts -/

/-- The length of a text in a column, with a blank. -/
def weight (text : String) : ℕ := (escapeQuotes text).length + 1

/-- The lengths of texts. -/
def weightOf (texts : List String) : ℕ := (texts.map weight).sum

theorem weight_join {texts : List String} (hne : texts ≠ []) :
    weight (join texts) = weightOf texts := by
  have hlength : ∀ text : String, (escapeQuotes text).length =
      (text.toList.flatMap fun c => if c = '\'' then ['\\', '\''] else [c]).length := by
    intro text
    rw [escapeQuotes, String.length_ofList]
  induction texts with
  | nil => exact absurd rfl hne
  | cons text texts ih =>
    rw [weightOf, List.map_cons, List.sum_cons, ← weightOf]
    by_cases hnil : texts = []
    · subst hnil
      simp [join, weightOf]
    · rw [← ih hnil]
      unfold weight join
      rw [hlength, hlength, hlength, List.map_cons, String.toList_ofList, String.toList_ofList,
        List.intercalate_cons_of_ne_nil (by simpa using hnil), List.flatMap_append,
        List.flatMap_append, List.length_append, List.length_append]
      simp
      omega

theorem weightOf_eq_zero {texts : List String} : weightOf texts = 0 ↔ texts = [] := by
  cases texts with
  | nil => simp [weightOf]
  | cons text texts => simp [weightOf, weight]

theorem eq_zero_of_sum_filter {α : Type} {w : α → ℕ} {keep : α → Bool} {l : List α}
    (h : ((l.filter keep).map w).sum = (l.map w).sum) : ∀ a ∈ l, keep a = false → w a = 0 := by
  have hle : ∀ l : List α, ((l.filter keep).map w).sum ≤ (l.map w).sum := by
    intro l
    exact ((List.filter_sublist).map w).sum_le_sum fun _ _ => Nat.zero_le _
  induction l with
  | nil => exact fun a ha => nomatch ha
  | cons a l ih =>
    have hl := hle l
    intro b hb hkeep
    rw [List.filter_cons, List.map_cons, List.sum_cons] at h
    split_ifs at h with ha
    · rw [List.map_cons, List.sum_cons] at h
      rcases List.mem_cons.mp hb with rfl | hb
      · rw [ha] at hkeep
        cases hkeep
      · exact ih (by omega) b hb hkeep
    · rcases List.mem_cons.mp hb with rfl | hb
      · omega
      · exact ih (by omega) b hb hkeep

section Element

variable {π : IterOrder String} {typeName : String} {el : BatchElement}

theorem weightOf_textsAt (kept : List String) :
    weightOf (textsAt el kept) = (kept.map fun p => weightOf (textsOf (valuesAt el p))).sum := by
  induction kept with
  | nil => rfl
  | cons p kept ih =>
    rw [textsAt, List.flatMap_cons, weightOf, List.map_append, List.sum_append, List.map_cons,
      List.sum_cons, ← ih]
    rfl

theorem weightOf_eq_of_textRows {texts texts' : List String}
    (h : (textRows typeName el texts).map Prod.snd = (textRows typeName el texts').map Prod.snd) :
    weightOf texts = weightOf texts' := by
  have hcolumn : ∀ texts : List String, columnOf [⟨.string, .str (join texts) .none, 0⟩] =
      .str [escapeQuotes (join texts) ++ ""] := fun _ => rfl
  unfold textRows at h
  split_ifs at h with hnil hnil' hnil'
  · rw [List.isEmpty_iff.mp hnil, List.isEmpty_iff.mp hnil']
  · cases h
  · cases h
  · have hrow := congrArg (fun rows => rows.map Row.column) h
    simp only [List.map_cons, List.map_nil, rowOf, hcolumn, List.cons.injEq, Column.str.injEq,
      and_true, String.append_empty] at hrow
    rw [← weight_join (by simpa using hnil), ← weight_join (by simpa using hnil'), weight, weight,
      hrow]

/-! ## One element with a part of its predicates -/

/-- The predicates of an individual that have texts. -/
def textPredicates (π : IterOrder String) (el : BatchElement) : List String :=
  (getPredicates π el).filter fun p => textsOf (valuesAt el p) ≠ []

variable (inLog : String → Bool)

theorem tableOf_ownRows_filter (predicates : List String) (p : String) :
    tableOf p (ownRows typeName el (predicates.filter fun p => !inLog p)) =
      if inLog p then [] else tableOf p (ownRows typeName el predicates) := by
  have hown : ∀ kept : List String, tableOf p (ownRows typeName el kept) =
      (kept.filter fun q => q = p).map fun q => rowOf typeName el (valuesAt el q) := by
    intro kept
    rw [tableOf, ownRows, List.filter_map, List.map_map]
    rfl
  rw [hown, hown, List.filter_filter]
  split_ifs with hp
  · rw [List.map_eq_nil_iff, List.filter_eq_nil_iff]
    intro q _ hq
    obtain ⟨rfl, hnot⟩ : q = p ∧ inLog q = false := by simpa using hq
    rw [hp] at hnot
    cases hnot
  · congr 1
    refine List.filter_congr fun q _ => ?_
    by_cases hq : q = p
    · subst hq
      simp [hp]
    · simp [hq]

theorem tableOf_textRows (texts : List String) (p : String) :
    tableOf p (textRows typeName el texts) =
      if p = "text" then (textRows typeName el texts).map Prod.snd else [] := by
  unfold textRows tableOf
  by_cases hp : p = "text"
  · subst hp
    rw [if_pos rfl]
    split_ifs <;> rfl
  · have hne : ¬ "text" = p := fun h => hp h.symm
    split_ifs
    · rfl
    · simp [hne]

theorem textsAt_filter {predicates : List String}
    (h : ∀ p ∈ predicates, textsOf (valuesAt el p) ≠ [] → inLog p = false) :
    textsAt el (predicates.filter fun p => !inLog p) = textsAt el predicates := by
  induction predicates with
  | nil => rfl
  | cons p predicates ih =>
    have hrest := ih fun q hq => h q (List.mem_cons_of_mem _ hq)
    rw [List.filter_cons]
    split_ifs with hp
    · rw [textsAt, List.flatMap_cons, ← textsAt, hrest]
      rfl
    · rw [hrest, textsAt, textsAt, List.flatMap_cons]
      have hnil : textsOf (valuesAt el p) = [] := by
        by_contra hne
        exact hp (by rw [h p List.mem_cons_self hne]; rfl)
      rw [hnil, List.nil_append]

/-- **An element that is read again** adds nothing to the tables in the log, and to the others what
it added, if and only if its texts are in the log together with their predicates. -/
theorem rowsFor_filter_iff :
    (∀ p, tableOf p (rowsFor typeName el ((getPredicates π el).filter fun p => !inLog p)) =
      if inLog p then [] else tableOf p (rowsFor typeName el (getPredicates π el))) ↔
    ∀ q ∈ textPredicates π el, inLog q = inLog "text" := by
  have hsplit : ∀ (kept : List String) (p : String), tableOf p (rowsFor typeName el kept) =
      tableOf p (ownRows typeName el kept) ++
        if p = "text" then (textRows typeName el (textsAt el kept)).map Prod.snd else [] := by
    intro kept p
    rw [← tableOf_textRows, rowsFor, tableOf, List.filter_append, List.map_append]
    rfl
  constructor
  · intro h q hq
    obtain ⟨hq, htexts⟩ : q ∈ getPredicates π el ∧ textsOf (valuesAt el q) ≠ [] := by
      simpa [textPredicates] using hq
    have htext := h "text"
    rw [hsplit, hsplit, if_pos rfl, if_pos rfl, tableOf_ownRows_filter] at htext
    cases hlog : inLog "text" with
    | true =>
      -- nothing is added, so there are no texts left
      rw [hlog, if_pos rfl, if_pos rfl, List.nil_append, List.map_eq_nil_iff] at htext
      by_contra hnot
      have hkept : q ∈ (getPredicates π el).filter fun p => !inLog p :=
        List.mem_filter.mpr ⟨hq, by simpa using hnot⟩
      unfold textRows at htext
      split_ifs at htext with hempty
      rw [List.isEmpty_iff, textsAt, List.flatMap_eq_nil_iff] at hempty
      exact htexts (hempty q hkept)
    | false =>
      -- the same text is added, so none is missing
      rw [hlog, if_neg Bool.false_ne_true, if_neg Bool.false_ne_true] at htext
      have hweight := weightOf_eq_of_textRows (List.append_cancel_left htext)
      rw [weightOf_textsAt, weightOf_textsAt] at hweight
      by_contra hnot
      refine htexts (weightOf_eq_zero.mp (eq_zero_of_sum_filter hweight q hq ?_))
      simpa using hnot
  · intro h p
    have htext : ∀ q ∈ getPredicates π el, textsOf (valuesAt el q) ≠ [] → inLog q = inLog "text" :=
      fun q hq hne => h q (List.mem_filter.mpr ⟨hq, by simpa using hne⟩)
    rw [hsplit, hsplit, tableOf_ownRows_filter]
    by_cases hp : p = "text"
    · subst hp
      rw [if_pos rfl, if_pos rfl]
      cases hlog : inLog "text" with
      | true =>
        have hnil : textsAt el ((getPredicates π el).filter fun p => !inLog p) = [] := by
          refine List.flatMap_eq_nil_iff.mpr fun q hq => ?_
          obtain ⟨hmem, hnot⟩ := List.mem_filter.mp hq
          by_contra hne
          rw [htext q hmem hne, hlog] at hnot
          cases hnot
        rw [hnil]
        rfl
      | false =>
        rw [textsAt_filter inLog fun q hq hne => (htext q hq hne).trans hlog]
        rfl
    · rw [if_neg hp, if_neg hp]
      split_ifs
      · rfl
      · rfl

end Element

/-! ## The blocks of a batch -/

/-- The elements of a batch, as they are in the queue. -/
structure Batch where
  elements : List Element
  positive : ∀ e ∈ elements, 0 < e.opId
  increasing : (elements.map (·.opId)).Pairwise (· < ·)

section Batches

variable (exported : String → Bool)

/-- What an element adds to the batches. -/
def contributions (e : Element) : List (String × BatchElement) :=
  if isSkipped e.new then []
  else (e.prevState.toList.flatMap fun prev =>
      (typesOf exported prev).map fun t => (t, (e.opId, prev, -1))) ++
    if e.cmd = .remove then [] else (typesOf exported e.new).map fun t => (t, (e.opId, e.new, 1))

theorem addToTypedBatch_eq (typedBatch : TypedBatch) (e : Element) :
    addToTypedBatch exported typedBatch e =
      (contributions exported e).foldl (fun m p => m.pushAt p.1 p.2) typedBatch := by
  unfold addToTypedBatch contributions addState
  cases e.prevState with
  | none =>
    split_ifs
    · rfl
    · rfl
    · rw [Option.toList_none, List.flatMap_nil, List.nil_append, List.foldl_map]
  | some prev =>
    rw [Option.toList_some, List.flatMap_singleton]
    split_ifs
    · rfl
    · rw [List.append_nil, List.foldl_map]
    · rw [List.foldl_append, List.foldl_map, List.foldl_map]

/-- The blocks of a batch. -/
def Batch.units (σ : IterOrder String) (batch : Batch) : List (String × List BatchElement) :=
  (batch.elements.foldl (addToTypedBatch exported) ∅).units σ blockLimit

variable {exported}

theorem mem_contributions {e : Element} {t : String} {el : BatchElement}
    (h : (t, el) ∈ contributions exported e) :
    (∃ prev, e.prevState = some prev ∧ el = (e.opId, prev, -1)) ∨ el = (e.opId, e.new, 1) := by
  have hstate : ∀ (s : State) (sign : ℤ), (t, el) ∈ (typesOf exported s).map
      (fun t => (t, (e.opId, s, sign))) → el = (e.opId, s, sign) := by
    intro s sign h
    obtain ⟨_, -, heq⟩ := List.mem_map.mp h
    exact (Prod.mk.inj heq).2.symm
  unfold contributions at h
  split_ifs at h with hskipped hremove
  · cases h
  all_goals
    rcases List.mem_append.mp h with h | h
    · obtain ⟨prev, hprev, hmem⟩ := List.mem_flatMap.mp h
      exact .inl ⟨prev, Option.mem_toList.mp hprev, hstate prev (-1) hmem⟩
  · cases h
  · exact .inr (hstate _ _ h)

theorem Batch.mem_contributions_of_mem_units {σ : IterOrder String} {batch : Batch}
    {s : String × BatchElement} (h : s ∈ elementsOf (batch.units exported σ)) :
    ∃ e ∈ batch.elements, s ∈ contributions exported e := by
  have hfold : batch.elements.foldl (addToTypedBatch exported) ∅ =
      (batch.elements.flatMap (contributions exported)).foldl
        (fun m p => m.pushAt p.1 p.2) ∅ := by
    rw [List.foldl_flatMap]
    exact List.foldl_ext _ _ _ fun typedBatch e _ => addToTypedBatch_eq exported typedBatch e
  obtain ⟨unit, hunit, hmem⟩ := List.mem_flatMap.mp h
  obtain ⟨el, hel, rfl⟩ := List.mem_map.mp hmem
  rw [Batch.units, hfold] at hunit
  exact List.mem_flatMap.mp (HashMap.mem_units_foldl_pushAt.mp ⟨unit, hunit, rfl, hel⟩)

theorem Batch.oneState (σ : IterOrder String) (batch : Batch) :
    OneState (elementsOf (batch.units exported σ)) := by
  intro t el el' hel hel' hop
  obtain ⟨e, he, hmem⟩ := batch.mem_contributions_of_mem_units hel
  obtain ⟨e', he', hmem'⟩ := batch.mem_contributions_of_mem_units hel'
  have hpos := batch.positive e he
  have hpos' := batch.positive e' he'
  have hnodup : (batch.elements.map (·.opId)).Nodup := batch.increasing.imp fun h => h.ne
  have hsame : e.opId = e'.opId → e = e' := fun h =>
    List.inj_on_of_nodup_map hnodup he he' h
  rcases mem_contributions hmem with ⟨prev, hprev, rfl⟩ | rfl <;>
    rcases mem_contributions hmem' with ⟨prev', hprev', rfl⟩ | rfl <;>
    simp only [signedOp] at hop
  · obtain rfl := hsame (by omega)
    rw [hprev] at hprev'
    rw [Option.some.inj hprev']
  · omega
  · omega
  · obtain rfl := hsame (by omega)
    rfl

end Batches

/-! ## The log of a batch -/

section Log

-- the orders in which the predicates are visited before the stop, and after it
variable (π π' : IterOrder String) (units : List (String × List BatchElement))
  (logged : List (ℕ × String))

/-- The log of some tables of the blocks: the block and the predicate of each. -/
def logOf : List TypePropOps :=
  logged.map fun key => recordOf ((units[key.1]?.map Prod.fst).getD "") key.2
    (tableAt (processUnits π ∅ units) key.1 key.2)

/-- **Nothing is added** when the blocks are read again: nothing is inserted in the tables that are
in the log, and in every other table what would have been inserted without a stop. -/
def AddsNothing : Prop :=
  ∀ k p, tableAt (processUnits π' (readLog (logOf π units logged)) units) k p =
    if (k, p) ∈ logged then [] else tableAt (processUnits π' ∅ units) k p

/-- The texts of each element are in the log together with each of their predicates. -/
def TextTogether : Prop :=
  ∀ k t els el q, (newUnits [] units)[k]? = some (t, els) → el ∈ els → q ∈ textPredicates π el →
    ((k, q) ∈ logged ↔ (k, "text") ∈ logged)

variable {π π' units logged}

theorem fst_newUnits (seen : List (String × BatchElement))
    (units : List (String × List BatchElement)) :
    (newUnits seen units).map Prod.fst = units.map Prod.fst := by
  induction units generalizing seen with
  | nil => rfl
  | cons unit work ih => rw [newUnits, List.map_cons, List.map_cons, ih]

theorem mem_getPredicates_iff {el : BatchElement} {p : String} :
    p ∈ getPredicates π el ↔ (el.2.1.obj.resources.lookup p).isSome := by
  constructor
  · intro h
    rw [lookup_of_mem_getPredicates h]
    rfl
  · intro h
    obtain ⟨resources, hresources⟩ := Option.isSome_iff_exists.mp h
    exact List.mem_map.mpr ⟨(p, resources), (HashMap.mem_iter π _ p resources).mpr hresources, rfl⟩

theorem keptBy_empty (typeName : String) (el : BatchElement) :
    keptBy π typeName el ∅ = getPredicates π el :=
  List.filter_eq_self.mpr fun p _ => by simp [opsOf]

theorem tableAt_empty (hone : OneState (elementsOf units)) (k : ℕ) (p : String) :
    tableAt (processUnits π ∅ units) k p = rowsAt π ∅ (newUnits [] units) k p :=
  tableAt_processUnits (since_self ∅) (by simpa using hone) k p

/-- **What is committed** of a new element: the predicates whose tables are in the log. -/
theorem keptBy_readLog (hone : OneState (elementsOf units)) {k : ℕ} {t : String}
    {els : List BatchElement} (hk : (newUnits [] units)[k]? = some (t, els)) {el : BatchElement}
    (hel : el ∈ els) :
    keptBy π' t el (readLog (logOf π units logged)) =
      (getPredicates π' el).filter fun p => !decide ((k, p) ∈ logged) := by
  have htype : ∀ {k : ℕ} {t : String} {els : List BatchElement},
      (newUnits [] units)[k]? = some (t, els) → (units[k]?.map Prod.fst).getD "" = t := by
    intro k t els hk
    rw [← List.getElem?_map, ← fst_newUnits [], List.getElem?_map, hk]
    rfl
  refine List.filter_congr fun p hp => ?_
  rw [← decide_not, decide_eq_decide, not_iff_not, mem_opsOf_readLog]
  constructor
  · rintro ⟨record, hrecord, ht, rfl, hop⟩
    obtain ⟨⟨k', p⟩, hlogged, rfl⟩ := List.mem_map.mp hrecord
    obtain ⟨row, hrow, hrowOp⟩ := List.mem_map.mp hop
    rw [tableAt_empty hone, rowsAt] at hrow
    cases hk' : (newUnits [] units)[k']? with
    | none =>
      rw [hk'] at hrow
      cases hrow
    | some unit =>
      obtain ⟨t', els'⟩ := unit
      rw [hk'] at hrow
      obtain ⟨el', hel', hmem⟩ := List.mem_flatMap.mp hrow
      obtain ⟨entry, hentry, rfl⟩ := List.mem_map.mp hmem
      have hop' := op_of_mem_rowsFor (List.mem_of_mem_filter hentry)
      obtain rfl : t = t' := ht.trans (htype hk')
      rw [index_eq hk hk' hel hel' (hrowOp.symm.trans hop')]
      exact hlogged
  · intro hlogged
    refine ⟨_, List.mem_map_of_mem hlogged, (htype hk).symm, rfl, ?_⟩
    refine List.mem_map.mpr ⟨rowOf t el (valuesAt el p), ?_, rfl⟩
    dsimp only
    rw [tableAt_empty hone, rowsAt, hk]
    refine List.mem_flatMap.mpr ⟨el, hel, List.mem_map.mpr ⟨(p, _), ?_, rfl⟩⟩
    rw [keptBy_empty, List.mem_filter, decide_eq_true_eq]
    exact ⟨List.mem_append_left _ (List.mem_map.mpr
      ⟨p, mem_getPredicates_iff.mpr (mem_getPredicates_iff.mp hp), rfl⟩), rfl⟩

theorem flatMap_inj {α β γ : Type} [DecidableEq γ] {l : List α} {key : α → γ} (mark : β → γ)
    {f g : α → List β} (hnodup : (l.map key).Nodup) (hf : ∀ a, ∀ b ∈ f a, mark b = key a)
    (hg : ∀ a, ∀ b ∈ g a, mark b = key a) :
    l.flatMap f = l.flatMap g ↔ ∀ a ∈ l, f a = g a := by
  refine ⟨fun h => ?_, fun h => List.flatMap_congr h⟩
  induction l with
  | nil => exact fun a ha => nomatch ha
  | cons a l ih =>
    obtain ⟨hnot, hnodup⟩ := List.nodup_cons.mp hnodup
    -- the part of the first element is what bears its mark
    have hpart : ∀ {f : α → List β}, (∀ a, ∀ b ∈ f a, mark b = key a) →
        ((a :: l).flatMap f).filter (fun b => mark b = key a) = f a := by
      intro f hf
      rw [List.flatMap_cons, List.filter_append]
      have hself : (f a).filter (fun b => mark b = key a) = f a :=
        List.filter_eq_self.mpr fun b hb => decide_eq_true (hf a b hb)
      have hrest : (l.flatMap f).filter (fun b => mark b = key a) = [] := by
        refine List.filter_eq_nil_iff.mpr fun b hb => ?_
        obtain ⟨a', ha', hb⟩ := List.mem_flatMap.mp hb
        rw [decide_eq_true_eq, hf a' b hb]
        exact fun heq => hnot (List.mem_map.mpr ⟨a', ha', heq⟩)
      rw [hself, hrest, List.append_nil]
    have hhead : f a = g a := by rw [← hpart hf, h, hpart hg]
    rw [List.flatMap_cons, List.flatMap_cons, hhead] at h
    rintro x hx
    rcases List.mem_cons.mp hx with rfl | hx
    · exact hhead
    · exact ih hnodup (List.append_cancel_left h) x hx

theorem tableAt_reread_iff (hone : OneState (elementsOf units)) {k : ℕ} {t : String}
    {els : List BatchElement} (hk : (newUnits [] units)[k]? = some (t, els)) (p : String) :
    tableAt (processUnits π' (readLog (logOf π units logged)) units) k p =
        (if (k, p) ∈ logged then [] else tableAt (processUnits π' ∅ units) k p) ↔
      ∀ el ∈ els, tableOf p (rowsFor t el ((getPredicates π' el).filter fun p =>
        !decide ((k, p) ∈ logged))) = if decide ((k, p) ∈ logged) then []
          else tableOf p (rowsFor t el (getPredicates π' el)) := by
  have hmark : ∀ (kept : List String) (el : BatchElement),
      ∀ row ∈ tableOf p (rowsFor t el kept), row.op = signedOp el := by
    intro kept el row hrow
    obtain ⟨entry, hentry, rfl⟩ := List.mem_map.mp hrow
    exact op_of_mem_rowsFor (List.mem_of_mem_filter hentry)
  have hnodup : (els.map signedOp).Nodup := by
    have hkeys := (List.nodup_flatMap.mp (nodup_keysOf_newUnits [] units).1).1 (t, els)
      (List.mem_of_getElem? hk)
    refine List.Nodup.of_map (fun op => (t, op)) ?_
    rw [List.map_map]
    exact hkeys
  have hreread : tableAt (processUnits π' (readLog (logOf π units logged)) units) k p =
      els.flatMap fun el => tableOf p (rowsFor t el ((getPredicates π' el).filter fun p =>
        !decide ((k, p) ∈ logged))) := by
    rw [tableAt_processUnits (since_self _) (by simpa using hone), rowsAt, hk]
    exact List.flatMap_congr fun el hel => by rw [keptBy_readLog hone hk hel]
  have hfirst : (if (k, p) ∈ logged then [] else tableAt (processUnits π' ∅ units) k p) =
      els.flatMap fun el => if decide ((k, p) ∈ logged) then []
        else tableOf p (rowsFor t el (getPredicates π' el)) := by
    rw [tableAt_empty hone, rowsAt, hk]
    simp only [keptBy_empty, decide_eq_true_eq]
    split_ifs
    · simp
    · rfl
  rw [hreread, hfirst]
  refine flatMap_inj Row.op hnodup (fun el => hmark _ el) fun el row hrow => ?_
  split_ifs at hrow
  · cases hrow
  · exact hmark _ el row hrow

/-- **Nothing is added** if and only if the texts are in the log together with their predicates. -/
theorem addsNothing_units_iff (hone : OneState (elementsOf units)) :
    AddsNothing π π' units logged ↔ TextTogether π' units logged := by
  constructor
  · intro h k t els el q hk hel hq
    have hrows := @rowsFor_filter_iff π' t el fun p => decide ((k, p) ∈ logged)
    have htogether := hrows.mp (fun p => (tableAt_reread_iff hone hk p).mp (h k p) el hel) q hq
    rwa [decide_eq_decide] at htogether
  · intro h k p
    cases hk : (newUnits [] units)[k]? with
    | none =>
      rw [tableAt_processUnits (since_self _) (by simpa using hone), tableAt_empty hone, rowsAt,
        rowsAt, hk]
      split_ifs <;> rfl
    | some unit =>
      obtain ⟨t, els⟩ := unit
      refine (tableAt_reread_iff hone hk p).mpr fun el hel => ?_
      refine (@rowsFor_filter_iff π' t el fun p => decide ((k, p) ∈ logged)).mpr
        (fun q hq => ?_) p
      rw [decide_eq_decide]
      exact h k t els el q hk hel hq

end Log

/-- **A batch that is read again** adds nothing to the tables in the log, and to the others what it
would have added without a stop, if and only if the texts of each element are in the log together
with each of their predicates.

**Proof sketch.** The elements of the queue have different numbers, so an operation in the log of a
type and a predicate is that of one element, in one block. When this is read again, the predicates
whose tables are in the log are skipped, and the others are inserted as before. The row of the texts
is missing if all predicates with texts are skipped, and if some are, it is a shorter one. -/
theorem addsNothing_iff (exported : String → Bool) (σ π π' : IterOrder String) (batch : Batch)
    (logged : List (ℕ × String)) :
    AddsNothing π π' (batch.units exported σ) logged ↔
      TextTogether π' (batch.units exported σ) logged :=
  addsNothing_units_iff (batch.oneState σ)

/-! ## A log without the texts -/

/-- A document with a label. -/
def labelled : State :=
  ((State.named "d:doc").addValue "rdf:type" .uri (.uri "d:Document")).addValue "rdfs:label"
    .string (.str "Report" .none)

/-- It is put. -/
def oneElement : Batch where
  elements := [⟨.put, 1, none, some labelled⟩]
  positive := by simp
  increasing := by simp

/-- The label was inserted and logged, the text was not: after the restart the text is lost. -/
theorem not_addsNothing_labelled :
    ¬ AddsNothing (.stored String) (.stored String)
      (oneElement.units (fun _ => true) (.stored String)) [(0, "rdfs:label")] := by
  have hiter : (oneElement.elements.foldl (addToTypedBatch fun _ => true) ∅).iter
      (.stored String) = [("d:Document", [(1, labelled, 1)])] := rfl
  have hunits : oneElement.units (fun _ => true) (.stored String) =
      [("d:Document", [(1, labelled, 1)])] := by
    rw [Batch.units, HashMap.units, hiter, List.flatMap_singleton, blocks, if_neg (by decide)]
    rfl
  rw [hunits]
  intro h
  have htext := h 0 "text"
  have hlost : tableAt (processUnits (.stored String) (readLog (logOf (.stored String)
      [("d:Document", [(1, labelled, 1)])] [(0, "rdfs:label")]))
      [("d:Document", [(1, labelled, 1)])]) 0 "text" = [] := rfl
  have hfirst : (tableAt (processUnits (.stored String) ∅
      [("d:Document", [(1, labelled, 1)])]) 0 "text").length = 1 := rfl
  rw [hlost, if_neg (by decide)] at htext
  rw [← htext] at hfirst
  cases hfirst

end Veda.SearchIndexPt
