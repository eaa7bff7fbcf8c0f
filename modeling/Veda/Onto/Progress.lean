import Mathlib.Data.List.Basic
import Veda.Onto.Opened

set_option autoImplicit false

/-!
# How far a getter decodes

The predicates of a stored individual are decoded in the order in which they stand in the record. A
getter goes up to its predicate, and to the end of the record when the predicate has no values.

## Main definitions

* `Onto.decodedBy` — the number of predicates that a getter needs.
* `Onto.OpenedTo` — the first predicates of the record are decoded.

## Main results

* `Onto.OpenedTo.get` — one call of a getter.
* `Onto.OpenedTo.lookup` — the values that are decoded.
-/

namespace Veda.Onto

open Veda.Lib Veda.Lib.Msgpack

/-- The number of predicates that are decoded for a getter: those up to its predicate, and all when
this has no values. -/
def decodedBy (π : IterOrder String) (obj : IndividualObj) (p : String) : ℕ :=
  if obj.valuesOf p = [] then obj.resources.keys.length
  else (π.order obj.resources.keys).idxOf p + 1

/-- The first `k` predicates of the record are decoded. -/
structure OpenedTo (π : IterOrder String) (obj : IndividualObj) (k : ℕ) (iraw : Individual) :
    Prop where
  le : k ≤ (obj.resources.iter π).length
  between : Between (headerOf obj) (withoutValues obj) ((obj.resources.iter π).take k)
    ((obj.resources.iter π).drop k) iraw

section

variable {π : IterOrder String} {obj : IndividualObj} {k : ℕ} {iraw : Individual} {p : String}

theorem openedTo_of_parseRaw (hfits : obj.AllFit) (cbor : CborParser) (π : IterOrder String) :
    ∃ start, (recordOf π obj).parseRaw cbor = (.ok (), start) ∧ OpenedTo π obj 0 start := by
  obtain ⟨start, hstart, hbetween⟩ := parseRaw_toMsgpack cbor π obj hfits.uri
  exact ⟨start, hstart, Nat.zero_le _, hbetween⟩

theorem OpenedTo.opened (h : OpenedTo π obj k iraw) : Opened π obj iraw :=
  ⟨_, _, List.take_append_drop k _, h.between⟩

theorem mem_order_of_valuesOf (π : IterOrder String) (h : obj.valuesOf p ≠ []) :
    p ∈ π.order obj.resources.keys := by
  rw [(π.perm _).mem_iff, ← AList.mem_keys, ← AList.lookup_isSome]
  cases hlookup : obj.resources.lookup p with
  | none =>
    rw [IndividualObj.valuesOf, hlookup] at h
    exact absurd rfl h
  | some v => rfl

theorem lookup_decoded_eq_none :
    (decoded π obj).resources.lookup p = none ↔ obj.valuesOf p = [] := by
  rw [lookup_decoded, IndividualObj.valuesOf]
  cases obj.resources.lookup p with
  | none => exact iff_of_true rfl rfl
  | some rs =>
    rw [Option.bind_some, Option.getD_some]
    split_ifs with h
    · exact iff_of_true rfl h
    · exact iff_of_false id h

theorem lookup_decoded_of_valuesOf (h : obj.valuesOf p ≠ []) :
    (decoded π obj).resources.lookup p = some (storedFrom 0 (obj.valuesOf p)) := by
  rw [lookup_decoded]
  rw [IndividualObj.valuesOf] at h ⊢
  cases hlookup : obj.resources.lookup p with
  | none =>
    rw [hlookup] at h
    exact absurd rfl h
  | some rs =>
    rw [hlookup, Option.getD_some] at h
    rw [Option.bind_some, if_neg h, Option.getD_some]

theorem mem_map_fst_take (h : k ≤ (obj.resources.iter π).length) :
    p ∈ ((obj.resources.iter π).take k).map Prod.fst ↔ (π.order obj.resources.keys).idxOf p < k := by
  rw [List.map_take, HashMap.map_fst_iter]
  by_cases hmem : p ∈ π.order obj.resources.keys
  · exact List.mem_take_iff_idxOf_lt hmem
  · rw [List.idxOf_eq_length hmem]
    rw [length_iter, ← (π.perm _).length_eq] at h
    exact iff_of_false (fun hp => hmem (List.mem_of_mem_take hp)) (by omega)

theorem mem_map_fst_drop (h : k ≤ (obj.resources.iter π).length) :
    p ∈ ((obj.resources.iter π).drop k).map Prod.fst ↔
      p ∈ π.order obj.resources.keys ∧ k ≤ (π.order obj.resources.keys).idxOf p := by
  have hsplit : ((obj.resources.iter π).take k).map Prod.fst ++
      ((obj.resources.iter π).drop k).map Prod.fst = π.order obj.resources.keys := by
    rw [← List.map_append, List.take_append_drop, HashMap.map_fst_iter]
  have hnodup := HashMap.nodup_fst_iter π obj.resources
  rw [HashMap.map_fst_iter] at hnodup
  rw [← not_lt, ← mem_map_fst_take h]
  rw [← hsplit] at hnodup ⊢
  rw [List.mem_append]
  constructor
  · exact fun hp => ⟨.inr hp, fun htaken => List.disjoint_of_nodup_append hnodup htaken hp⟩
  · exact fun hp => hp.1.resolve_left hp.2

/-- **The values that are decoded**: those of the first predicates of the record. -/
theorem OpenedTo.lookup (h : OpenedTo π obj k iraw) (p : String) :
    iraw.obj.resources.lookup p =
      if (π.order obj.resources.keys).idxOf p < k then (decoded π obj).resources.lookup p
      else none := by
  rw [h.between.obj]
  split_ifs with hlt
  · rw [← mem_map_fst_take h.le, List.mem_map] at hlt
    obtain ⟨⟨q, rs⟩, hmem, rfl⟩ := hlt
    have hlookup := (HashMap.mem_iter π _ _ _).mp (List.mem_of_mem_take hmem)
    rw [IndividualObj.lookup_addEntries _ ?_ hmem (AList.lookup_empty _), lookup_decoded, hlookup]
    · rfl
    · rw [List.map_take]
      exact (HashMap.nodup_fst_iter π _).sublist (List.take_sublist _ _)
  · rw [← mem_map_fst_take h.le] at hlt
    rw [IndividualObj.lookup_addEntries_of_notMem _ hlt]
    exact AList.lookup_empty p

section Loop

variable {ρ : Type} {cbor : CborParser} {g : Getter ρ} {header : List UInt8} {base : IndividualObj}
  {taken left : List (String × List Resource)}

theorem Between.getLoop_end (h : Between header base taken [] iraw)
    (hnone : iraw.obj.resources.lookup p = none) (visits : ℕ) :
    (Individual.getLoop cbor g p visits iraw).2 = iraw := by
  cases visits with
  | zero => rfl
  | succ visits =>
    rw [Individual.getLoop, hnone]
    dsimp only
    rw [if_neg fun hlt => h.cur_lt_iff.mp hlt rfl]

variable (cbor g) in
theorem Between.getLoop_all (h : Between header base taken left iraw)
    (hfits : ∀ e ∈ left, EntryFits e) (hcount : (taken ++ left).length < 4294967296)
    (hnone : iraw.obj.resources.lookup p = none) (habsent : ∀ e ∈ left, e.1 ≠ p) (visits : ℕ) :
    Between header base (taken ++ left) []
      (Individual.getLoop cbor g p (visits + 1) iraw).2 := by
  by_cases hne : left = []
  · subst hne
    rw [h.getLoop_end hnone, List.append_nil]
    exact h
  · rw [Individual.getLoop, hnone]
    dsimp only
    rw [if_pos (h.cur_lt_iff.mpr hne)]
    obtain ⟨answer, iraw', hparse, hbetween, hnone'⟩ :=
      h.parse_absent hne hfits habsent hcount hnone cbor
    rw [hparse]
    cases answer with
    | true =>
      dsimp only
      rw [hbetween.getLoop_end hnone']
      exact hbetween
    | false => exact hbetween

end Loop

theorem OpenedTo.of_all (h : Between (headerOf obj) (withoutValues obj) (obj.resources.iter π) []
    iraw) : OpenedTo π obj obj.resources.keys.length iraw := by
  rw [← length_iter π]
  refine ⟨le_rfl, ?_⟩
  rw [List.take_length, List.drop_length]
  exact h

theorem OpenedTo.parse_found (h : OpenedTo π obj k iraw) (hfits : obj.AllFit) (cbor : CborParser)
    (hmem : p ∈ π.order obj.resources.keys) (hle : k ≤ (π.order obj.resources.keys).idxOf p) :
    ∃ iraw', parseToPredicate cbor p iraw = (true, iraw') ∧
      OpenedTo π obj ((π.order obj.resources.keys).idxOf p + 1) iraw' := by
  rcases exists_first_or_forall_ne ((obj.resources.iter π).drop k) p with
    ⟨es, e, left, heq, rfl, hes⟩ | habsent
  · obtain ⟨first, hfirst⟩ : ∃ first, (obj.resources.iter π).take k = first := ⟨_, rfl⟩
    have hbetween := h.between
    rw [heq, hfirst] at hbetween
    have hall : obj.resources.iter π = (first ++ (es ++ [e])) ++ left := by
      rw [List.append_assoc, List.append_assoc, List.singleton_append, ← heq, ← hfirst,
        List.take_append_drop]
    have hentries : ∀ x ∈ obj.resources.iter π, EntryFits x := fun x hx =>
      hfits.entries _ _ ((HashMap.mem_iter π obj.resources x.1 x.2).mp hx)
    have hcount : (first ++ (es ++ e :: left)).length < 4294967296 := by
      rw [← heq, ← hfirst, List.take_append_drop, length_iter]
      exact hfits.count
    have hrounds := hbetween.rounds_left (by simp) hcount
    rw [List.length_append, List.length_cons] at hrounds
    obtain ⟨iraw', hparse, hbetween'⟩ := hbetween.parse_found (fun x hx => hentries x (by
      rw [hall]
      exact List.mem_append_left _ (List.mem_append_right _ hx))) hes (by omega) cbor
    have hlength : (first ++ (es ++ [e])).length =
        (π.order obj.resources.keys).idxOf e.1 + 1 := by
      have hnot : e.1 ∉ (first ++ es).map Prod.fst := by
        rw [List.map_append, List.mem_append, ← hfirst, mem_map_fst_take h.le, not_or]
        refine ⟨not_lt.mpr hle, fun he => ?_⟩
        obtain ⟨x, hx, hxe⟩ := List.mem_map.mp he
        exact hes x hx hxe
      conv_rhs => rw [← HashMap.map_fst_iter, hall]
      rw [← List.append_assoc, List.append_assoc _ [e], List.map_append,
        List.idxOf_append_of_notMem hnot, List.singleton_append, List.map_cons,
        List.idxOf_cons_self, List.length_append, List.length_map, List.length_singleton]
    refine ⟨iraw', hparse, ?_, ?_⟩
    · have hle' : (first ++ (es ++ [e]) ++ left).length = (first ++ (es ++ [e])).length +
          left.length := List.length_append
      rw [← hall] at hle'
      omega
    · rw [← hlength, hall, List.take_left, List.drop_left]
      exact hbetween'
  · obtain ⟨x, hx, hxp⟩ := List.mem_map.mp ((mem_map_fst_drop h.le).mpr ⟨hmem, hle⟩)
    exact absurd hxp (habsent x hx)

theorem OpenedTo.getLoop_all (h : OpenedTo π obj k iraw) (hfits : obj.AllFit) {ρ : Type}
    (cbor : CborParser) (g : Getter ρ) (hnone : iraw.obj.resources.lookup p = none)
    (habsent : p ∉ ((obj.resources.iter π).drop k).map Prod.fst) (visits : ℕ) :
    OpenedTo π obj obj.resources.keys.length
      (Individual.getLoop cbor g p (visits + 1) iraw).2 := by
  have hall := h.between.getLoop_all cbor g
    (fun e he => hfits.entries _ _
      ((HashMap.mem_iter π obj.resources e.1 e.2).mp (List.mem_of_mem_drop he)))
    (by
      rw [List.take_append_drop, length_iter]
      exact hfits.count)
    hnone (fun e he heq => habsent (List.mem_map.mpr ⟨e, he, heq⟩)) visits
  rw [List.take_append_drop] at hall
  exact .of_all hall

/-- **One call** of a getter decodes up to its predicate.

**Proof sketch.** A predicate that is decoded and has values is read where it is. One that is left is
decoded by the first visit; the second one finds its values, or it decodes the rest. One that is
neither decoded nor left has no values. -/
theorem OpenedTo.get (h : OpenedTo π obj k iraw) (hfits : obj.AllFit) {ρ : Type}
    (cbor : CborParser) (g : Getter ρ) (p : String) :
    OpenedTo π obj (max k (decodedBy π obj p)) (iraw.get cbor g p).2 := by
  have hle := h.le
  rw [length_iter] at hle
  have hlookup := h.lookup p
  cases hfound : iraw.obj.resources.lookup p with
  | some v =>
    rw [hfound] at hlookup
    split_ifs at hlookup with hlt
    have hvalues : obj.valuesOf p ≠ [] := by
      rw [Ne, ← lookup_decoded_eq_none (π := π), ← hlookup]
      exact Option.some_ne_none v
    rw [decodedBy, if_neg hvalues, Nat.max_eq_left hlt, Individual.get, getLoop_some hfound]
    exact h
  | none =>
    by_cases hleft : p ∈ ((obj.resources.iter π).drop k).map Prod.fst
    · obtain ⟨hmem, hk⟩ := (mem_map_fst_drop h.le).mp hleft
      obtain ⟨iraw', hparse, hopened⟩ := h.parse_found hfits cbor hmem hk
      have hne : (obj.resources.iter π).drop k ≠ [] := by
        rintro hnil
        rw [hnil] at hleft
        exact absurd hleft List.not_mem_nil
      have hfirst : iraw.get cbor g p = Individual.getLoop cbor g p 1 iraw' := by
        rw [Individual.get, Individual.getLoop, hfound]
        dsimp only
        rw [if_pos (h.between.cur_lt_iff.mpr hne), hparse]
      rw [hfirst]
      have hlookup' := hopened.lookup p
      rw [if_pos (Nat.lt_succ_self _)] at hlookup'
      by_cases hvalues : obj.valuesOf p = []
      · rw [lookup_decoded_eq_none.mpr hvalues] at hlookup'
        rw [decodedBy, if_pos hvalues, Nat.max_eq_right hle]
        refine hopened.getLoop_all hfits cbor g hlookup' (fun hp => ?_) 0
        have hlt := ((mem_map_fst_drop hopened.le).mp hp).2
        omega
      · rw [lookup_decoded_of_valuesOf hvalues] at hlookup'
        rw [getLoop_some hlookup', decodedBy, if_neg hvalues, Nat.max_eq_right (by omega)]
        exact hopened
    · have hvalues : obj.valuesOf p = [] := by
        by_contra hvalues
        rw [hfound, lookup_decoded_of_valuesOf hvalues] at hlookup
        split_ifs at hlookup with hlt
        exact hleft ((mem_map_fst_drop h.le).mpr
          ⟨mem_order_of_valuesOf π hvalues, not_lt.mp hlt⟩)
      rw [decodedBy, if_pos hvalues, Nat.max_eq_right hle]
      exact h.getLoop_all hfits cbor g hfound hleft 1

end

end Veda.Onto
