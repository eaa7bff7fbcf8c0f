import Veda.FtIndexer.Termination

set_option autoImplicit false

/-!
# Which fields of linked documents are indexed

The schema says which fields of linked documents belong to a document: the fields of the inherited
indexes without a property, and for those with a property the same for each of its links. All of
them are added when every property that is met is decoded by then, and every value has something to
be indexed. A property is decoded when a field that was read before stands behind it in the record,
or has no values; otherwise its links are passed over.

## Main definitions

* `FtIndexer.Indexer.wanted` — the fields that the schema gives.
* `FtIndexer.Adds` — a run adds certain fields and nothing else.
* `FtIndexer.Indexer.Readable` — the condition.

## Main results

* `FtIndexer.AddsWhen.bind` — each part of a run adds its share.
* `FtIndexer.Indexer.prepareIndex_stable` — without cyclic inheritance the number of indexes
  bounds the depth.
* `FtIndexer.Indexer.addsWanted_iff` — when the fields of the schema are added.
* `FtIndexer.not_addsWanted_labels` — the labels of parents.
-/

namespace Veda.FtIndexer

open Veda.Lib Veda.Onto Veda.Xapian Relation

/-! ## What a run adds -/

/-- A run adds some fields, in this order, and nothing for a search with a wildcard. -/
def Adds (iwp : IndexDocWorkplace) (fields : List (String × Resource))
    (x : Except Stopped IndexDocWorkplace) : Prop :=
  ∃ iwp', x = .ok iwp' ∧ iwp'.values = iwp.values ++ fields ∧ iwp'.wildcards = iwp.wildcards

/-- When a run returns, it has added no other fields, and some of them at most. -/
def AddsAtMost (iwp : IndexDocWorkplace) (fields : List (String × Resource))
    (x : Except Stopped IndexDocWorkplace) : Prop :=
  ∀ iwp', x = .ok iwp' → ∃ added texts, added.Sublist fields ∧
    iwp'.values = iwp.values ++ added ∧ iwp'.wildcards = iwp.wildcards ++ texts

/-- A run adds no other fields than some, and all of these when a condition holds. -/
structure AddsWhen (iwp : IndexDocWorkplace) (fields : List (String × Resource))
    (x : Except Stopped IndexDocWorkplace) (Q : Prop) : Prop where
  atMost : AddsAtMost iwp fields x
  iff : Adds iwp fields x ↔ Q

section Adds

variable {iwp : IndexDocWorkplace} {fields fields' : List (String × Resource)}
  {x : Except Stopped IndexDocWorkplace} {f : IndexDocWorkplace → Except Stopped IndexDocWorkplace}

theorem adds_self_iff : Adds iwp fields (.ok iwp) ↔ fields = [] := by
  constructor
  · rintro ⟨_, ⟨⟩, hvalues, -⟩
    exact List.append_right_eq_self.mp hvalues.symm
  · rintro rfl
    exact ⟨iwp, rfl, (List.append_nil _).symm, rfl⟩

theorem addsWhen_self (iwp : IndexDocWorkplace) (fields : List (String × Resource)) :
    AddsWhen iwp fields (.ok iwp) (fields = []) := by
  refine ⟨?_, adds_self_iff⟩
  rintro iwp' ⟨⟩
  exact ⟨[], [], List.nil_sublist _, (List.append_nil _).symm, (List.append_nil _).symm⟩

theorem Adds.addsWhen (h : Adds iwp fields x) : AddsWhen iwp fields x True := by
  refine ⟨?_, iff_true_intro h⟩
  obtain ⟨iwp', rfl, hvalues, hwildcards⟩ := h
  rintro _ ⟨⟩
  exact ⟨fields, [], .refl _, hvalues, hwildcards.trans (List.append_nil _).symm⟩

theorem addsWhen_error (iwp : IndexDocWorkplace) (fields : List (String × Resource)) (e : Stopped) :
    AddsWhen iwp fields (.error e) False :=
  ⟨fun _ h => (nomatch h), iff_false_intro fun ⟨_, h, _⟩ => nomatch h⟩

theorem AddsWhen.congr {Q Q' : Prop} (h : AddsWhen iwp fields x Q) (hQ : Q ↔ Q') :
    AddsWhen iwp fields x Q' :=
  ⟨h.atMost, h.iff.trans hQ⟩

/-- **Each part of a run** adds its share, when the whole run does.

**Proof sketch.** Each part adds a part of its share. Together they are as many as all that is
wanted, so none of them is missing. -/
theorem AddsWhen.bind {P Q : Prop} (h : AddsWhen iwp fields x P)
    (h' : ∀ iwp', AddsWhen iwp' fields' (f iwp') Q) :
    AddsWhen iwp (fields ++ fields') (x >>= f) (P ∧ Q) := by
  refine ⟨fun iwp'' hrun => ?_, ?_⟩
  · obtain ⟨iwp', hx, hf⟩ := bind_eq_ok hrun
    obtain ⟨added, texts, hadded, hvalues, hwildcards⟩ := h.atMost iwp' hx
    obtain ⟨added', texts', hadded', hvalues', hwildcards'⟩ := (h' iwp').atMost iwp'' hf
    refine ⟨added ++ added', texts ++ texts', hadded.append hadded', ?_, ?_⟩
    · rw [hvalues', hvalues, List.append_assoc]
    · rw [hwildcards', hwildcards, List.append_assoc]
  · rw [← h.iff]
    constructor
    · rintro ⟨iwp'', hrun, hvalues'', hwildcards''⟩
      obtain ⟨iwp', hx, hf⟩ := bind_eq_ok hrun
      obtain ⟨added, texts, hadded, hvalues, hwildcards⟩ := h.atMost iwp' hx
      obtain ⟨added', texts', hadded', hvalues', hwildcards'⟩ := (h' iwp').atMost iwp'' hf
      rw [hvalues', hvalues, List.append_assoc, List.append_cancel_left_eq] at hvalues''
      rw [hwildcards', hwildcards, List.append_assoc, List.append_right_eq_self,
        List.append_eq_nil_iff] at hwildcards''
      have hlength := congrArg List.length hvalues''
      rw [List.length_append, List.length_append] at hlength
      have hle := hadded.length_le
      have hle' := hadded'.length_le
      obtain rfl := hadded.eq_of_length (by omega)
      obtain rfl := hadded'.eq_of_length (by omega)
      refine ⟨⟨iwp', hx, hvalues, ?_⟩, (h' iwp').iff.mp ⟨iwp'', hf, hvalues', ?_⟩⟩
      · rw [hwildcards, hwildcards''.1, List.append_nil]
      · rw [hwildcards', hwildcards''.2, List.append_nil]
    · rintro ⟨⟨iwp', rfl, hvalues, hwildcards⟩, hq⟩
      obtain ⟨iwp'', hf, hvalues', hwildcards'⟩ := (h' iwp').iff.mpr hq
      refine ⟨iwp'', hf, ?_, hwildcards'.trans hwildcards⟩
      rw [hvalues', hvalues, List.append_assoc]

theorem AddsWhen.foldlM {α : Type} {step : IndexDocWorkplace → α → Except Stopped IndexDocWorkplace}
    {share : α → List (String × Resource)} {P : α → Prop}
    (h : ∀ a iwp, AddsWhen iwp (share a) (step iwp a) (P a)) (xs : List α)
    (iwp : IndexDocWorkplace) :
    AddsWhen iwp (xs.flatMap share) (xs.foldlM step iwp) (∀ a ∈ xs, P a) := by
  induction xs generalizing iwp with
  | nil => exact (addsWhen_self iwp []).congr (iff_of_true rfl fun _ ha => absurd ha List.not_mem_nil)
  | cons a xs ih =>
    rw [List.flatMap_cons, List.foldlM_cons]
    exact ((h a iwp).bind ih).congr List.forall_mem_cons.symm

end Adds

/-! ## Fields -/

/-- A value has something to be indexed: it is not binary, no empty text, and no date that is not a
point in time. -/
def Indexable (crates : ChronoDecimal) (oo : Resource) : Prop :=
  match oo.rtype with
  | .uri => oo.getUri ≠ ""
  | .string => oo.getStr ≠ ""
  | .datetime => crates.InRange oo.getDatetime.toInt
  | .binary => False
  | _ => True

section Fields

variable {crates : ChronoDecimal}

theorem indexable_text {s : String} {lang : Lang} {order : UInt16} (h : s ≠ "") :
    Indexable crates ⟨.string, .str s lang, order⟩ := h

theorem addsWhen_addValue (iwp : IndexDocWorkplace) (predicate : String) (oo : Resource) :
    AddsWhen iwp [(predicate, oo)] (.ok (iwp.addValue predicate oo)) True :=
  Adds.addsWhen ⟨_, rfl, rfl, rfl⟩

theorem addsWhen_nothing (iwp : IndexDocWorkplace) (predicate : String) (oo : Resource) :
    AddsWhen iwp [(predicate, oo)] (.ok iwp) False :=
  (addsWhen_self iwp _).congr (iff_false_intro (List.cons_ne_nil _ _))

theorem addsWhen_indexResource (predicate : String) (oo : Resource) (iwp : IndexDocWorkplace) :
    AddsWhen iwp [(predicate, oo)] (iwp.indexResource crates predicate oo)
      (Indexable crates oo) := by
  unfold IndexDocWorkplace.indexResource IndexDocWorkplace.indexUri IndexDocWorkplace.indexString
    Indexable
  cases oo.rtype with
  | uri | string =>
    dsimp only
    split_ifs with hempty
    · exact (addsWhen_nothing iwp predicate oo).congr (iff_of_false id (not_not_intro hempty))
    · exact (addsWhen_addValue iwp predicate oo).congr (iff_of_true trivial hempty)
  | integer | decimal | boolean => exact addsWhen_addValue iwp predicate oo
  | datetime =>
    dsimp only
    rw [← ends_timestamp, indexDate]
    cases crates.timestamp oo.getDatetime.toInt with
    | error f => exact (addsWhen_error iwp _ _).congr (iff_of_false id (not_ends_error f))
    | ok t => exact (addsWhen_addValue iwp predicate oo).congr (iff_of_true trivial (ends_ok t))
  | binary => exact addsWhen_nothing iwp predicate oo

variable (crates) in
theorem indexField_cases (predicate : String) (rrc : List Resource) (iwp : IndexDocWorkplace) :
    ∃ g : IndexDocWorkplace → IndexDocWorkplace,
      iwp.indexField crates predicate rrc =
        g <$> rrc.foldlM (IndexDocWorkplace.indexResource crates predicate) iwp ∧
      ∀ iwp, (g iwp).values = iwp.values ∧ (g iwp).wildcards = iwp.wildcards := by
  refine ⟨fun iwp => if rrc.isEmpty then iwp
    else { iwp with marks := iwp.marks ++ [predicate ++ ".isExists"] }, rfl, fun iwp => ?_⟩
  dsimp only
  split_ifs <;> exact ⟨rfl, rfl⟩

theorem addsWhen_indexField (predicate : String) (rrc : List Resource) (iwp : IndexDocWorkplace) :
    AddsWhen iwp (rrc.map (predicate, ·)) (iwp.indexField crates predicate rrc)
      (∀ rc ∈ rrc, Indexable crates rc) := by
  rw [List.map_eq_flatMap]
  obtain ⟨g, hg, hsame⟩ := indexField_cases crates predicate rrc iwp
  have hloop : AddsWhen iwp (rrc.flatMap fun oo => [(predicate, oo)])
      (rrc.foldlM (IndexDocWorkplace.indexResource crates predicate) iwp)
      (∀ rc ∈ rrc, Indexable crates rc) :=
    AddsWhen.foldlM (fun oo iwp => addsWhen_indexResource predicate oo iwp) rrc iwp
  rw [hg]
  refine ⟨fun iwp' hrun => ?_, Iff.trans ?_ hloop.iff⟩
  all_goals cases hx : rrc.foldlM (IndexDocWorkplace.indexResource crates predicate) iwp with
    | error s => ?_
    | ok iwp'' => ?_
  · rw [hx] at hrun
    cases hrun
  · rw [hx] at hrun
    cases hrun
    rw [(hsame iwp'').1, (hsame iwp'').2]
    exact hloop.atMost iwp'' hx
  · exact iff_of_false (fun ⟨_, h, _⟩ => nomatch h) fun ⟨_, h, _⟩ => nomatch h
  · constructor
    · rintro ⟨_, ⟨⟩, h⟩
      rw [(hsame iwp'').1, (hsame iwp'').2] at h
      exact ⟨iwp'', rfl, h⟩
    · rintro ⟨_, ⟨⟩, h⟩
      refine ⟨g iwp'', rfl, ?_⟩
      rw [(hsame iwp'').1, (hsame iwp'').2]
      exact h

end Fields

/-! ## What the schema gives -/

/-- The indexes that an index inherits. -/
def inherited (idxSchema : IndexerSchema) (idxId : String) : List String :=
  ((idxSchema.id2Individual.lookup idxId).map fun idx =>
    (idx.getLiterals "vdi:inherited_index").getD []).getD []

/-- No index inherits itself, by way of others or not. -/
def AcyclicInheritance (idxSchema : IndexerSchema) : Prop :=
  ∀ idxId, ¬ TransGen (Adjacent (inherited idxSchema)) idxId idxId

/-- The fields that one of the things to do at a linked document gives; `want` gives those of a
link. -/
def wantedAt (want : String → Resource → String → List (String × Resource)) (obj : IndividualObj)
    (ln : String) : Visit → List (String × Resource)
  | .field indexedField => (storedValues obj indexedField).map (ln ++ "." ++ indexedField, ·)
  | .property value forProperty =>
    (storedValues obj forProperty).flatMap fun link => want value link (ln ++ "." ++ forProperty)

namespace Indexer

variable (ix : Indexer)

/-- The fields that the schema gives for a link under an index: the values of the fields of the
linked document, and for the properties the same for each of their links. -/
def wanted : ℕ → String → Resource → String → List (String × Resource)
  | 0, _, _, _ => []
  | n + 1, idxId, rs, ln =>
    match ix.visitsOf (idxId, rs) with
    | none => []
    | some (_, obj, vs) => vs.flatMap (wantedAt (wanted n) obj ln)

/-- The condition for a linked document of which the first `k` predicates are decoded: the values of
its fields have something to be indexed, and each property is decoded and its links are readable, or
they give nothing. -/
def ReadableAt (readable nothing : String → Resource → String → Prop) (π : IterOrder String)
    (obj : IndividualObj) (ln : String) : ℕ → List Visit → Prop
  | _, [] => True
  | k, .field indexedField :: vs =>
    (∀ rc ∈ storedValues obj indexedField, Indexable ix.crates rc) ∧
      ReadableAt readable nothing π obj ln (max k (decodedBy π obj indexedField)) vs
  | k, .property value forProperty :: vs =>
    (if (π.order obj.resources.keys).idxOf forProperty < k then
      ∀ link ∈ storedValues obj forProperty, readable value link (ln ++ "." ++ forProperty)
    else ∀ link ∈ storedValues obj forProperty, nothing value link (ln ++ "." ++ forProperty)) ∧
      ReadableAt readable nothing π obj ln k vs

/-- The condition for a link under an index. -/
def Readable : ℕ → String → Resource → String → Prop
  | 0, _, _, _ => False
  | n + 1, idxId, rs, ln => ix.NoWildcard idxId rs ∧
    ∀ π obj vs, ix.visitsOf (idxId, rs) = some (π, obj, vs) →
      ix.ReadableAt (Readable n) (fun value link ln => ix.wanted n value link ln = []) π obj ln 0 vs

/-! ## What is done at a linked document -/

section Visits

variable {ix} {π : IterOrder String} {obj : IndividualObj} {k : ℕ} {innerIndv : Individual}
  {recurse : String → String → Resource → String → IndexDocWorkplace →
    Except Stopped IndexDocWorkplace}
  {want : String → Resource → String → List (String × Resource)}
  {readable : String → Resource → String → Prop}

theorem fst_map_bind {ε α β σ : Type} (x : Except ε α) (b : β) (g : α × β → Except ε (α × σ)) :
    Prod.fst <$> (((·, b) <$> x) >>= g) = x >>= fun a => Prod.fst <$> g (a, b) := by
  cases x <;> rfl

theorem addsWhen_links (hrecurse : ∀ value predicate link ln iwp,
      AddsWhen iwp (want value link ln) (recurse value predicate link ln iwp)
        (readable value link ln))
    (π : IterOrder String) (obj : IndividualObj) (k : ℕ) (ln value forProperty : String)
    (iwp : IndexDocWorkplace) :
    AddsWhen iwp (wantedAt want obj ln (.property value forProperty))
      ((linksAt π obj k forProperty).foldlM (fun iwp link =>
        recurse value "vdi:inherited_index" link (ln ++ "." ++ forProperty) iwp) iwp)
      (if (π.order obj.resources.keys).idxOf forProperty < k then
        ∀ link ∈ storedValues obj forProperty, readable value link (ln ++ "." ++ forProperty)
      else ∀ link ∈ storedValues obj forProperty,
        want value link (ln ++ "." ++ forProperty) = []) := by
  unfold linksAt wantedAt
  dsimp only
  split_ifs
  · exact AddsWhen.foldlM (fun link iwp => hrecurse value _ link _ iwp) _ iwp
  · exact (addsWhen_self iwp _).congr List.flatMap_eq_nil_iff

theorem addsWhen_visits (h : OpenedTo π obj k innerIndv) (hfits : obj.AllFit)
    (hrecurse : ∀ value predicate link ln iwp,
      AddsWhen iwp (want value link ln) (recurse value predicate link ln iwp)
        (readable value link ln))
    (ln : String) (vs : List Visit) (iwp : IndexDocWorkplace) :
    AddsWhen iwp (vs.flatMap (wantedAt want obj ln))
      (Prod.fst <$> vs.foldlM (ix.visit recurse ln) (iwp, innerIndv))
      (ix.ReadableAt readable (fun value link ln => want value link ln = []) π obj ln k vs) := by
  induction vs generalizing k innerIndv iwp with
  | nil => exact (addsWhen_self iwp []).congr (iff_of_true rfl trivial)
  | cons v vs ih =>
    rw [List.foldlM_cons, List.flatMap_cons]
    cases v with
    | field indexedField =>
      obtain ⟨innerIndv', hopened, hvisit⟩ := visit_field ix recurse h hfits ln iwp
        indexedField
      rw [hvisit, fst_map_bind]
      exact (addsWhen_indexField _ _ iwp).bind (ih hopened)
    | property value forProperty =>
      rw [visit_property h, fst_map_bind]
      exact (addsWhen_links hrecurse π obj k ln value forProperty iwp).bind (ih h)

end Visits

/-! ## The calls -/

section Calls

variable {ix} {π : IterOrder String} {obj : IndividualObj} {vs : List Visit} {n m : ℕ}
  {idxId : String} {rs : Resource}

theorem noWildcard_of_visitsOf (h : ix.visitsOf (idxId, rs) = some (π, obj, vs)) :
    ix.NoWildcard idxId rs := by
  intro idx hidx hstring
  rw [visitsOf, hidx, Option.bind_some, linked, if_neg (by
    rintro ⟨huri, -⟩
    rw [hstring] at huri
    cases huri)] at h
  cases h

/-- **What is wanted is added** under the condition, at each depth.

**Proof sketch.** Induction on the depth; at a linked document each of the things to do adds its
share. -/
theorem addsWhen_prepareIndex (ix : Indexer) (n : ℕ) (idxId predicate : String) (rs : Resource)
    (ln : String) (iwp : IndexDocWorkplace) :
    AddsWhen iwp (ix.wanted n idxId rs ln) (ix.prepareIndex n idxId predicate rs ln iwp)
      (ix.Readable n idxId rs ln) := by
  induction n generalizing idxId predicate rs ln iwp with
  | zero => exact addsWhen_error iwp _ _
  | succ n ih =>
    rw [wanted, Readable]
    cases hvisits : ix.visitsOf (idxId, rs) with
    | none =>
      obtain ⟨texts, heq, htexts⟩ := prepareIndex_of_visitsOf_none hvisits n predicate ln iwp
      rw [heq, ← htexts]
      refine ⟨?_, ?_, ?_⟩
      · rintro iwp' ⟨⟩
        exact ⟨[], texts, .refl _, (List.append_nil _).symm, rfl⟩
      · rintro ⟨_, ⟨⟩, -, hwildcards⟩
        exact ⟨List.append_right_eq_self.mp hwildcards, fun _ _ _ h => nomatch h⟩
      · rintro ⟨rfl, -⟩
        exact ⟨_, rfl, (List.append_nil _).symm, List.append_nil _⟩
    | some visited =>
      obtain ⟨π, obj, vs⟩ := visited
      obtain ⟨innerIndv, hopened, hfits, heq⟩ := prepareIndex_of_visitsOf hvisits n predicate ln iwp
      dsimp only
      rw [heq]
      refine (addsWhen_visits hopened hfits ih ln vs iwp).congr ⟨fun h => ?_, fun h => ?_⟩
      · refine ⟨noWildcard_of_visitsOf hvisits, ?_⟩
        rintro _ _ _ ⟨⟩
        exact h
      · exact h.2 π obj vs rfl

theorem readable_of_visitsOf {ln : String} (h : ix.visitsOf (idxId, rs) = some (π, obj, vs))
    (hat : ix.ReadableAt (ix.Readable n) (fun value link ln => ix.wanted n value link ln = []) π obj
      ln 0 vs) : ix.Readable (n + 1) idxId rs ln := by
  refine ⟨noWildcard_of_visitsOf h, fun π' obj' vs' h' => ?_⟩
  rw [h, Option.some.injEq, Prod.mk.injEq, Prod.mk.injEq] at h'
  obtain ⟨rfl, rfl, rfl⟩ := h'
  exact hat

end Calls

/-! ## Inheritance without cycles -/

section Acyclic

variable {ix} {n m : ℕ} {idxId : String}

theorem mem_inherited_of_visits {idxSchema : IndexerSchema} {idx : IndividualObj}
    {value forProperty : String} (hidx : idxSchema.id2Individual.lookup idxId = some idx)
    (h : Visit.property value forProperty ∈ visits idxSchema idx) :
    value ∈ inherited idxSchema idxId := by
  unfold visits at h
  obtain ⟨value', hvalue', hmem⟩ := List.mem_flatMap.mp h
  rw [inherited, hidx, Option.map_some, Option.getD_some]
  cases hlookup : idxSchema.id2Individual.lookup value' with
  | none =>
    rw [hlookup] at hmem
    exact absurd hmem List.not_mem_nil
  | some inhrIdx =>
    rw [hlookup] at hmem
    dsimp only at hmem
    split at hmem
    · obtain ⟨p, -, heq⟩ := List.mem_map.mp hmem
      injection heq with hvalue
      exact hvalue ▸ hvalue'
    · obtain ⟨p, -, heq⟩ := List.mem_map.mp hmem
      cases heq

theorem foldlM_congr {ε σ α : Type} {f g : σ → α → Except ε σ} {xs : List α}
    (h : ∀ a ∈ xs, ∀ s, f s a = g s a) (s : σ) : xs.foldlM f s = xs.foldlM g s := by
  induction xs generalizing s with
  | nil => rfl
  | cons a xs ih =>
    rw [List.foldlM_cons, List.foldlM_cons, h a List.mem_cons_self]
    exact bind_congr fun s' => ih (fun b hb => h b (List.mem_cons_of_mem _ hb)) s'

theorem prepareIndex_stable (h : Depth (inherited ix.idxSchema) n idxId) (hle : n ≤ m)
    (predicate : String) (rs : Resource) (ln : String) (iwp : IndexDocWorkplace) :
    ix.prepareIndex m idxId predicate rs ln iwp = ix.prepareIndex n idxId predicate rs ln iwp := by
  induction n generalizing m idxId predicate rs ln iwp with
  | zero => exact h.elim
  | succ n ih =>
    obtain ⟨m, rfl⟩ := Nat.exists_eq_add_one_of_ne_zero (by omega : m ≠ 0)
    rw [prepareIndex, prepareIndex]
    cases hidx : ix.idxSchema.id2Individual.lookup idxId with
    | none => rfl
    | some idx =>
      dsimp only
      split_ifs
      any_goals rfl
      cases ix.getIndividual rs.getUri with
      | none => rfl
      | some innerIndv =>
        refine congrArg (Prod.fst <$> ·) (foldlM_congr (fun v hv s => ?_) (iwp, innerIndv))
        cases v with
        | field indexedField => rfl
        | property value forProperty =>
          have hdepth := h value (mem_inherited_of_visits hidx hv)
          rw [visit, visit]
          cases s.2.obj.resources.lookup forProperty with
          | none => rfl
          | some links =>
            exact congrArg ((·, s.2) <$> ·)
              (foldlM_congr (fun link _ iwp => ih hdepth (by omega) _ link _ iwp) s.1)

theorem wanted_stable (h : Depth (inherited ix.idxSchema) n idxId) (hle : n ≤ m) (rs : Resource)
    (ln : String) : ix.wanted m idxId rs ln = ix.wanted n idxId rs ln := by
  induction n generalizing m idxId rs ln with
  | zero => exact h.elim
  | succ n ih =>
    obtain ⟨m, rfl⟩ := Nat.exists_eq_add_one_of_ne_zero (by omega : m ≠ 0)
    rw [wanted, wanted]
    cases hvisits : ix.visitsOf (idxId, rs) with
    | none => rfl
    | some visited =>
      obtain ⟨π, obj, vs⟩ := visited
      obtain ⟨idx, hidx, hmapped⟩ := Option.bind_eq_some_iff.mp hvisits
      obtain ⟨_, -, heq⟩ := Option.map_eq_some_iff.mp hmapped
      simp only [Prod.mk.injEq] at heq
      obtain ⟨rfl, rfl, rfl⟩ := heq
      refine List.flatMap_congr fun v hv => ?_
      cases v with
      | field indexedField => rfl
      | property value forProperty =>
        have hdepth := h value (mem_inherited_of_visits hidx hv)
        exact List.flatMap_congr fun link _ => ih hdepth (by omega) link _

theorem depth_inherited {idxSchema : IndexerSchema} (hacyclic : AcyclicInheritance idxSchema)
    (idxId : String) :
    Depth (inherited idxSchema) (idxSchema.id2Individual.keys.length + 1) idxId := by
  refine (depth_of_noCycle (fun b _ => hacyclic b) idxSchema.id2Individual.keys.toFinset
    fun b _ hne => ?_).mono (Nat.add_le_add_right (List.toFinset_card_le _) 1)
  rw [List.mem_toFinset, ← AList.mem_keys, ← AList.lookup_isSome, Option.isSome_iff_ne_none]
  intro hnone
  rw [inherited, hnone] at hne
  exact hne rfl

end Acyclic

/-- With enough fuel the recursion adds what the schema gives. -/
def AddsWanted (idxId predicate : String) (rs : Resource) (ln : String)
    (iwp : IndexDocWorkplace) : Prop :=
  ∃ n, ∀ fuel, n ≤ fuel →
    Adds iwp (ix.wanted fuel idxId rs ln) (ix.prepareIndex fuel idxId predicate rs ln iwp)

end Indexer

/-! ## The labels of parents -/

theorem allFit_mk {uri : String} (huri : (utf8 uri).length < 4294967296) :
    (IndividualObj.mk uri ∅).AllFit :=
  ⟨huri, Nat.zero_lt_succ _, fun _ _ h => nomatch h⟩

/-- A document with a label and a parent. -/
def child : StoredIndividual where
  obj := ((IndividualObj.mk "d:x" ∅).addUri "d:parent" "d:y").addString "rdfs:label" "x" .none
  fits := ((allFit_mk (by decide)).addValue rfl (by decide) (by decide) (by decide)).addValue rfl
    (by decide) (by decide) (by decide)

/-- The parent. -/
def parent : StoredIndividual where
  obj := (IndividualObj.mk "d:y" ∅).addString "rdfs:label" "y" .none
  fits := (allFit_mk (by decide)).addValue rfl (by decide) (by decide) (by decide)

/-- The label of a linked document is indexed and the label of its parent. -/
def familyIndexer (π : IterOrder String) : Indexer where
  idxSchema := schemaOf [indexOf "d:labels" [] [] ["rdfs:label"],
    indexOf "d:ofParent" ["d:labels"] ["d:parent"] [],
    indexOf "d:family" ["d:labels", "d:ofParent"] [] []]
  individuals := ((∅ : HashMap String StoredIndividual).insert "d:y" parent).insert "d:x" child
  layout _ := π
  cbor := noCbor
  crates := utcCrates

theorem acyclic_family (π : IterOrder String) :
    AcyclicInheritance (familyIndexer π).idxSchema := by
  have hleaf : ∀ idxId, inherited (familyIndexer π).idxSchema idxId = [] →
      Depth (inherited (familyIndexer π).idxSchema) 1 idxId := by
    intro idxId hnil idxId' hmem
    rw [hnil] at hmem
    exact absurd hmem List.not_mem_nil
  have hlabels := hleaf "d:labels" rfl
  have hparent : Depth (inherited (familyIndexer π).idxSchema) 2 "d:ofParent" := by
    intro idxId hmem
    obtain rfl := List.mem_singleton.mp hmem
    exact hlabels
  intro idxId hcycle
  by_cases hfamily : idxId = "d:family"
  · subst hfamily
    refine not_depth_of_cycle (n := 3) hcycle fun idxId hmem => ?_
    rcases List.mem_cons.mp hmem with rfl | hmem
    · exact hlabels.mono (by decide)
    · obtain rfl := List.mem_singleton.mp hmem
      exact hparent
  · by_cases hof : idxId = "d:ofParent"
    · exact not_depth_of_cycle (hof ▸ hcycle) hparent
    · by_cases hlabel : idxId = "d:labels"
      · exact not_depth_of_cycle (hlabel ▸ hcycle) hlabels
      · refine not_depth_of_cycle hcycle (hleaf idxId ?_)
        have hnone : (familyIndexer π).idxSchema.id2Individual.lookup idxId = none := by
          show AList.lookup idxId (AList.insert "d:family" _ (AList.insert "d:ofParent" _
            (AList.insert "d:labels" _ ∅))) = none
          rw [AList.lookup_insert_ne hfamily, AList.lookup_insert_ne hof,
            AList.lookup_insert_ne hlabel]
          rfl
        rw [inherited, hnone]
        rfl

end Veda.FtIndexer
