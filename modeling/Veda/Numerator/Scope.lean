import Mathlib.Algebra.Order.Ring.Int
import Mathlib.Data.Int.ConditionallyCompleteOrder
import Mathlib.Order.ConditionallyCompleteLattice.Basic
import Mathlib.Order.Interval.Set.Basic
import Veda.Lib.HashMap

set_option autoImplicit false

/-!
# Scopes of numbers

A scope keeps the numbers that are taken as intervals, each of which is an individual of its own. To
commit a number is to grow an interval, to merge two of them or to make a new one; to revoke a number
is to cut the intervals that hold it.

## Main definitions

* `Numerator.Interval`, `Numerator.Store` — the intervals of a scope and the documents.
* `Numerator.getNextValueSimple`, `Numerator.commitValue`,
  `Numerator.revokeValue` — the operations on a scope.
* `Numerator.Store.committed` — the numbers that are taken.
* `Numerator.Sound` — the intervals are stored, not empty and told apart.
* `Numerator.Store.Apart` — the intervals are neither joined nor next to each other.

## Main results

* `Numerator.Sound.commitValue`, `Numerator.Sound.revokeValue` — committing adds exactly one
  number, and revoking takes exactly one away.
* `Numerator.getNextValueSimple_notMem` — the next value is not taken.

## Design

Numbers of the scripts are integers. The value that a rule answers is a text, and the operator `+`
joins a text with what follows instead of adding to it. The marks of intervals that were merged or
emptied are left out, as nothing reads them.
-/

namespace Veda.Numerator

open Veda.Lib

/-! ## The store -/

structure Interval where
  intervalBegin : ℤ
  intervalEnd : ℤ

/-- What the numerator reads of a document: `parseInt(number || 0)` and the mark. -/
structure Document where
  number : ℤ
  deleted : Bool
deriving DecidableEq

/-- The intervals, the list of those that belong to the scope, which may not be stored yet, the
documents, and how many identifiers were made. -/
structure Store where
  intervals : HashMap String Interval
  scope : Option (List String)
  documents : HashMap String Document
  made : ℕ

/-- A number of a script, or a text of digits. -/
structure Value where
  number : ℤ
  isText : Bool

/-- `value + 1`, as a number: a text is joined with the digit. -/
def Value.plusOne (v : Value) : ℤ := if v.isText then v.number * 10 + 1 else v.number + 1

def Store.putInterval (s : Store) (uri : String) (i : Interval) : Store :=
  { s with intervals := s.intervals.insert uri i }

def Store.putDocument (s : Store) (uri : String) (d : Document) : Store :=
  { s with documents := s.documents.insert uri d }

/-- The intervals of the scope. -/
def Store.uris (s : Store) : List String := s.scope.getD []

/-- The numbers of some intervals. -/
def Store.numbersOf (s : Store) (uris : List String) : Set ℤ :=
  {n | ∃ uri ∈ uris, ∃ i, s.intervals.lookup uri = some i ∧
    n ∈ Set.Icc i.intervalBegin i.intervalEnd}

/-- The numbers that are taken. -/
def Store.committed (s : Store) : Set ℤ := s.numbersOf s.uris

/-! ## The operations -/

section Program

variable (newUri : ℕ → String)

/-- The largest end of some intervals; one that cannot be read is passed over. -/
def maxEnd (s : Store) (uris : List String) : ℤ :=
  uris.foldl (fun max uri =>
    match s.intervals.lookup uri with
    | some i => if i.intervalEnd > max then i.intervalEnd else max
    | none => max) 0

def getNextValueSimple (s : Store) (firstValue : ℤ) : Value :=
  if s.uris = [] then ⟨firstValue, true⟩ else ⟨maxEnd s s.uris + 1, true⟩

/-- What a scope holds of a number: the number, or intervals beside it. -/
inductive Place
  | committed
  | beside (prevInterval nextInterval : Option (String × Interval))

/-- The loop of `commitValue`; an interval that cannot be read is passed over. -/
def placeOf (s : Store) (value : Value) :
    List String → Option (String × Interval) → Option (String × Interval) → Place
  | [], prev, next => .beside prev next
  | uri :: uris, prev, next =>
    match s.intervals.lookup uri with
    | none => placeOf s value uris prev next
    | some i =>
      if i.intervalBegin ≤ value.number ∧ value.number ≤ i.intervalEnd then .committed
      else if i.intervalBegin = value.plusOne then placeOf s value uris prev (some (uri, i))
      else if i.intervalEnd = value.number - 1 then placeOf s value uris (some (uri, i)) next
      else placeOf s value uris prev next

def commitValue (value : Value) (s : Store) : Store :=
  match placeOf s value s.uris none none with
  | .committed => s
  | .beside (some (prevUri, prev)) (some (nextUri, next)) =>
    let s := s.putInterval prevUri { prev with intervalEnd := next.intervalEnd }
    { s with scope := some (s.uris.filter fun uri => uri ≠ nextUri) }
  | .beside (some (prevUri, prev)) none =>
    s.putInterval prevUri { prev with intervalEnd := value.number }
  | .beside none (some (nextUri, next)) =>
    s.putInterval nextUri { next with intervalBegin := value.number }
  | .beside none none =>
    let uri := newUri s.made
    let s := { s with made := s.made + 1 }.putInterval uri ⟨value.number, value.number⟩
    { s with scope := some (s.uris ++ [uri]) }

/-- The loop of `revokeValue`: the intervals that are left. It stops at one that cannot be read. -/
def revokeFrom (value : ℤ) : List String → Store → Store × Option (List String)
  | [], s => (s, some [])
  | uri :: uris, s =>
    match s.intervals.lookup uri with
    | none => (s, none)
    | some i =>
      if i.intervalBegin = value then
        if i.intervalBegin < i.intervalEnd then
          let (s, rest) := revokeFrom value uris (s.putInterval uri ⟨value + 1, i.intervalEnd⟩)
          (s, rest.map fun rest => uri :: rest)
        else revokeFrom value uris s
      else if i.intervalEnd = value then
        if i.intervalBegin < i.intervalEnd then
          let (s, rest) := revokeFrom value uris (s.putInterval uri ⟨i.intervalBegin, value - 1⟩)
          (s, rest.map fun rest => uri :: rest)
        else revokeFrom value uris s
      else if i.intervalBegin < value ∧ value < i.intervalEnd then
        let s := s.putInterval uri ⟨i.intervalBegin, value - 1⟩
        let newIntervalUri := newUri s.made
        let s := { s with made := s.made + 1 }.putInterval newIntervalUri
          ⟨value + 1, i.intervalEnd⟩
        let (s, rest) := revokeFrom value uris s
        (s, rest.map fun rest => uri :: newIntervalUri :: rest)
      else
        let (s, rest) := revokeFrom value uris s
        (s, rest.map fun rest => uri :: rest)

/-- A scope that is not stored, or an interval that cannot be read, stops it. -/
def revokeValue (value : ℤ) (s : Store) : Store :=
  match s.scope with
  | none => s
  | some uris =>
    match revokeFrom newUri value uris s with
    | (s, none) => s
    | (s, some intervals) => { s with scope := some intervals }

end Program

/-! ## Numbers of intervals -/

section Numbers

variable {s s' : Store} {uri : String} {uris uris' : List String} {i : Interval} {n : ℤ}

@[simp] theorem numbersOf_nil : s.numbersOf [] = ∅ := by
  ext n
  simp [Store.numbersOf]

theorem numbersOf_append : s.numbersOf (uris ++ uris') = s.numbersOf uris ∪ s.numbersOf uris' := by
  ext n
  simp only [Store.numbersOf, List.mem_append, Set.mem_union, Set.mem_ofPred_eq, or_and_right,
    exists_or]

theorem numbersOf_cons : s.numbersOf (uri :: uris) = s.numbersOf [uri] ∪ s.numbersOf uris := by
  rw [← List.singleton_append, numbersOf_append]

theorem numbersOf_singleton (h : s.intervals.lookup uri = some i) :
    s.numbersOf [uri] = Set.Icc i.intervalBegin i.intervalEnd := by
  ext n
  simp [Store.numbersOf, h]

theorem numbersOf_congr
    (h : ∀ uri ∈ uris, s'.intervals.lookup uri = s.intervals.lookup uri) :
    s'.numbersOf uris = s.numbersOf uris := by
  ext n
  refine exists_congr fun uri => and_congr_right fun huri => ?_
  rw [h uri huri]

theorem Icc_diff_begin {b e : ℤ} : Set.Icc (b + 1) e = Set.Icc b e \ {b} := by
  ext n
  simp only [Set.mem_Icc, Set.mem_sdiff, Set.mem_singleton_iff]
  omega

theorem Icc_diff_end {b e : ℤ} : Set.Icc b (e - 1) = Set.Icc b e \ {e} := by
  ext n
  simp only [Set.mem_Icc, Set.mem_sdiff, Set.mem_singleton_iff]
  omega

theorem Icc_diff_inside {b e n : ℤ} (hb : b < n) (he : n < e) :
    Set.Icc b (n - 1) ∪ Set.Icc (n + 1) e = Set.Icc b e \ {n} := by
  ext m
  simp only [Set.mem_union, Set.mem_Icc, Set.mem_sdiff, Set.mem_singleton_iff]
  omega

/-- No number of one set is a number of the other one or next to one. -/
def Far (S T : Set ℤ) : Prop := ∀ a ∈ S, ∀ b ∈ T, a + 1 < b ∨ b + 1 < a

theorem Far.symm {S T : Set ℤ} (h : Far S T) : Far T S := fun a ha b hb => (h b hb a ha).symm

theorem Far.mono {S S' T T' : Set ℤ} (h : Far S T) (hS : S' ⊆ S) (hT : T' ⊆ T) : Far S' T' :=
  fun a ha b hb => h a (hS ha) b (hT hb)

theorem far_Icc_iff {b e b' e' : ℤ} (h : b ≤ e) (h' : b' ≤ e') :
    Far (Set.Icc b e) (Set.Icc b' e') ↔ e + 1 < b' ∨ e' + 1 < b := by
  constructor
  · intro hfar
    by_contra hnear
    rw [not_or] at hnear
    have hends := hfar (max b (min e b')) (by simp [h]) (max b' (min e' b)) (by simp [h'])
    omega
  · rintro (hlt | hlt) a ⟨ha, ha'⟩ c ⟨hc, hc'⟩
    · exact .inl (by omega)
    · exact .inr (by omega)

/-- The intervals are neither joined nor next to each other. -/
def Store.Apart (s : Store) (uris : List String) : Prop :=
  ∀ uri ∈ uris, ∀ uri' ∈ uris, uri ≠ uri' → Far (s.numbersOf [uri]) (s.numbersOf [uri'])

theorem numbersOf_subset (h : uri ∈ uris) : s.numbersOf [uri] ⊆ s.numbersOf uris := by
  rintro n ⟨u, hu, hn⟩
  exact ⟨u, List.mem_singleton.mp hu ▸ h, hn⟩

end Numbers

/-! ## Stores that fit together -/

/-- The intervals of the scope are told apart, stored and not empty, and they were made before. -/
structure Sound (newUri : ℕ → String) (s : Store) : Prop where
  nodup : s.uris.Nodup
  stored : ∀ uri ∈ s.uris, ∃ i, s.intervals.lookup uri = some i ∧ i.intervalBegin ≤ i.intervalEnd
  made : ∀ uri ∈ s.uris, ∃ k < s.made, uri = newUri k

/-! ## Revoking -/

section Revoking

variable {newUri : ℕ → String} {s s₁ s₂ : Store} {uris uris' rest rest' : List String} {value : ℤ}

/-- What is left of some intervals when a number is taken out of them. -/
structure Cut (newUri : ℕ → String) (value : ℤ) (uris : List String) (s s' : Store)
    (rest : List String) : Prop where
  documents : s'.documents = s.documents
  scope : s'.scope = s.scope
  made : s.made ≤ s'.made
  nodup : rest.Nodup
  origin : ∀ uri ∈ rest, uri ∈ uris ∨ ∃ k, s.made ≤ k ∧ k < s'.made ∧ uri = newUri k
  proper : ∀ uri ∈ rest, ∃ i, s'.intervals.lookup uri = some i ∧ i.intervalBegin ≤ i.intervalEnd
  frame : ∀ uri, uri ∉ uris → (∀ k, s.made ≤ k → uri ≠ newUri k) →
    s'.intervals.lookup uri = s.intervals.lookup uri
  numbers : s'.numbersOf rest = s.numbersOf uris \ {value}

theorem ne_newUri_of_made (hnew : Function.Injective newUri)
    (hmade : ∀ uri ∈ uris, ∃ k < s.made, uri = newUri k) :
    ∀ uri ∈ uris, ∀ k, s.made ≤ k → uri ≠ newUri k := by
  intro uri huri k hk heq
  obtain ⟨k', hk', rfl⟩ := hmade uri huri
  exact absurd (hnew heq) (Nat.ne_of_lt (hk'.trans_le hk))

theorem Cut.lookup_kept (hnew : Function.Injective newUri) (h : Cut newUri value uris s s₁ rest)
    (h' : Cut newUri value uris' s₁ s₂ rest') (hapart : uris.Disjoint uris')
    (hmade : ∀ uri ∈ uris ++ uris', ∃ k < s.made, uri = newUri k) :
    ∀ uri ∈ rest, s₂.intervals.lookup uri = s₁.intervals.lookup uri := by
  have hold := ne_newUri_of_made hnew hmade
  intro uri huri
  rcases h.origin uri huri with hmem | ⟨k, -, hk, rfl⟩
  · exact h'.frame uri (fun hmem' => hapart hmem hmem') fun k hk =>
      hold uri (List.mem_append_left _ hmem) k (h.made.trans hk)
  · refine h'.frame _ (fun hmem => ?_) fun k' hk' heq => ?_
    · rcases h.origin _ huri with hmem' | ⟨k', hk', -, heq⟩
      · exact hapart hmem' hmem
      · exact hold _ (List.mem_append_right _ hmem) k' hk' heq
    · exact absurd (hnew heq) (by omega)

theorem Cut.lookup_left (hnew : Function.Injective newUri) (h : Cut newUri value uris s s₁ rest)
    (hapart : uris.Disjoint uris')
    (hmade : ∀ uri ∈ uris ++ uris', ∃ k < s.made, uri = newUri k) :
    ∀ uri ∈ uris', s₁.intervals.lookup uri = s.intervals.lookup uri := fun uri huri =>
  h.frame uri (fun hmem => hapart hmem huri)
    (ne_newUri_of_made hnew hmade uri (List.mem_append_right _ huri))

theorem Cut.append (hnew : Function.Injective newUri) (h : Cut newUri value uris s s₁ rest)
    (h' : Cut newUri value uris' s₁ s₂ rest') (hapart : uris.Disjoint uris')
    (hmade : ∀ uri ∈ uris ++ uris', ∃ k < s.made, uri = newUri k) :
    Cut newUri value (uris ++ uris') s s₂ (rest ++ rest') := by
  have hold := ne_newUri_of_made hnew hmade
  have hkept := h.lookup_kept hnew h' hapart hmade
  have hrest := h.lookup_left hnew hapart hmade
  refine ⟨h'.documents.trans h.documents, h'.scope.trans h.scope, h.made.trans h'.made, ?_,
    fun uri huri => ?_, fun uri huri => ?_, fun uri huri hlater => ?_, ?_⟩
  · refine h.nodup.append h'.nodup fun uri huri huri' => ?_
    rcases h.origin uri huri with hmem | ⟨k, hk₀, hk, rfl⟩ <;>
      rcases h'.origin _ huri' with hmem' | ⟨k', hk', -, heq⟩
    · exact hapart hmem hmem'
    · exact hold uri (List.mem_append_left _ hmem) k' (h.made.trans hk') heq
    · exact hold _ (List.mem_append_right _ hmem') k hk₀ rfl
    · exact absurd (hnew heq) (by omega)
  · rcases List.mem_append.mp huri with huri | huri
    · rcases h.origin uri huri with hmem | ⟨k, hk, hk', heq⟩
      · exact .inl (List.mem_append_left _ hmem)
      · exact .inr ⟨k, hk, hk'.trans_le h'.made, heq⟩
    · rcases h'.origin uri huri with hmem | ⟨k, hk, hk', heq⟩
      · exact .inl (List.mem_append_right _ hmem)
      · exact .inr ⟨k, h.made.trans hk, hk', heq⟩
  · rcases List.mem_append.mp huri with huri | huri
    · rw [hkept uri huri]
      exact h.proper uri huri
    · exact h'.proper uri huri
  · rw [h'.frame uri (fun hmem => huri (List.mem_append_right _ hmem))
      (fun k hk => hlater k (h.made.trans hk)),
      h.frame uri (fun hmem => huri (List.mem_append_left _ hmem)) hlater]
  · rw [numbersOf_append, numbersOf_append, numbersOf_congr hkept, h.numbers, h'.numbers,
      numbersOf_congr hrest, Set.union_sdiff_distrib]

theorem Cut.apart (hnew : Function.Injective newUri) (h : Cut newUri value uris s s₁ rest)
    (h' : Cut newUri value uris' s₁ s₂ rest') (hapart : uris.Disjoint uris')
    (hmade : ∀ uri ∈ uris ++ uris', ∃ k < s.made, uri = newUri k)
    (hfar : Far (s.numbersOf uris) (s.numbersOf uris')) (hrest : s₁.Apart rest)
    (hrest' : s₂.Apart rest') : s₂.Apart (rest ++ rest') := by
  have hkept : ∀ uri ∈ rest, s₂.numbersOf [uri] = s₁.numbersOf [uri] := fun uri huri =>
    numbersOf_congr fun u hu =>
      h.lookup_kept hnew h' hapart hmade u (List.mem_singleton.mp hu ▸ huri)
  have hfirst : ∀ uri ∈ rest, s₂.numbersOf [uri] ⊆ s.numbersOf uris := fun uri huri => by
    rw [hkept uri huri]
    exact (numbersOf_subset huri).trans (h.numbers.subset.trans Set.sdiff_subset)
  have hsecond : ∀ uri ∈ rest', s₂.numbersOf [uri] ⊆ s.numbersOf uris' := fun uri huri => by
    rw [← numbersOf_congr (h.lookup_left hnew hapart hmade)]
    exact (numbersOf_subset huri).trans (h'.numbers.subset.trans Set.sdiff_subset)
  intro uri huri uri' huri' hne
  rcases List.mem_append.mp huri with huri | huri <;>
    rcases List.mem_append.mp huri' with huri' | huri'
  · rw [hkept uri huri, hkept uri' huri']
    exact hrest uri huri uri' huri' hne
  · exact hfar.mono (hfirst uri huri) (hsecond uri' huri')
  · exact (hfar.mono (hfirst uri' huri') (hsecond uri huri)).symm
  · exact hrest' uri huri uri' huri' hne

theorem cut_putInterval {uri : String} {i i' : Interval}
    (hlookup : s.intervals.lookup uri = some i) (hproper : i'.intervalBegin ≤ i'.intervalEnd)
    (hnumbers : Set.Icc i'.intervalBegin i'.intervalEnd =
      Set.Icc i.intervalBegin i.intervalEnd \ {value}) :
    Cut newUri value [uri] s (s.putInterval uri i') [uri] where
  documents := rfl
  scope := rfl
  made := le_rfl
  nodup := List.nodup_singleton uri
  origin := fun _ h => .inl h
  proper := fun u hu => ⟨i', by rw [List.mem_singleton.mp hu]; exact AList.lookup_insert .., hproper⟩
  frame := fun u hu _ => AList.lookup_insert_ne fun heq => hu (List.mem_singleton.mpr heq)
  numbers := by
    rw [numbersOf_singleton hlookup, numbersOf_singleton (AList.lookup_insert ..), hnumbers]

theorem lookup_split (hnew : Function.Injective newUri) {uri : String} (i : Interval)
    (hmade : ∃ k < s.made, uri = newUri k) :
    uri ≠ newUri s.made ∧
    ({ s.putInterval uri ⟨i.intervalBegin, value - 1⟩ with made := s.made + 1 }.putInterval
      (newUri s.made) ⟨value + 1, i.intervalEnd⟩).intervals.lookup uri =
        some ⟨i.intervalBegin, value - 1⟩ ∧
    ({ s.putInterval uri ⟨i.intervalBegin, value - 1⟩ with made := s.made + 1 }.putInterval
      (newUri s.made) ⟨value + 1, i.intervalEnd⟩).intervals.lookup (newUri s.made) =
        some ⟨value + 1, i.intervalEnd⟩ := by
  have hne : uri ≠ newUri s.made := by
    obtain ⟨k, hk, rfl⟩ := hmade
    exact fun heq => absurd (hnew heq) hk.ne
  exact ⟨hne, (AList.lookup_insert_ne hne).trans (AList.lookup_insert ..), AList.lookup_insert ..⟩

theorem cut_split (hnew : Function.Injective newUri) {uri : String} {i : Interval}
    (hlookup : s.intervals.lookup uri = some i) (hmade : ∃ k < s.made, uri = newUri k)
    (hbegin : i.intervalBegin < value) (hend : value < i.intervalEnd) :
    Cut newUri value [uri] s
      ({ s.putInterval uri ⟨i.intervalBegin, value - 1⟩ with made := s.made + 1 }.putInterval
        (newUri s.made) ⟨value + 1, i.intervalEnd⟩) [uri, newUri s.made] := by
  obtain ⟨hne, hfirst, hsecond⟩ := lookup_split hnew i hmade
  refine ⟨rfl, rfl, Nat.le_succ _, ?_, fun u hu => ?_, fun u hu => ?_, fun u hu hlater => ?_, ?_⟩
  · exact List.nodup_cons.mpr ⟨fun hmem => hne (List.mem_singleton.mp hmem),
      List.nodup_singleton _⟩
  · rcases List.mem_cons.mp hu with rfl | hu
    · exact .inl (List.mem_singleton_self _)
    · exact .inr ⟨s.made, le_rfl, Nat.lt_succ_self _, List.mem_singleton.mp hu⟩
  · rcases List.mem_cons.mp hu with rfl | hu
    · exact ⟨_, hfirst, Int.le_sub_one_of_lt hbegin⟩
    · rw [List.mem_singleton.mp hu]
      exact ⟨_, hsecond, hend⟩
  · exact (AList.lookup_insert_ne (hlater s.made le_rfl)).trans
      (AList.lookup_insert_ne fun heq => hu (List.mem_singleton.mpr heq))
  · have htwo : [uri, newUri s.made] = [uri] ++ [newUri s.made] := rfl
    rw [htwo, numbersOf_append, numbersOf_singleton hfirst, numbersOf_singleton hsecond,
      numbersOf_singleton hlookup, Icc_diff_inside hbegin hend]

theorem cut_drop {uri : String} {i : Interval} (hlookup : s.intervals.lookup uri = some i)
    (hnumbers : Set.Icc i.intervalBegin i.intervalEnd \ {value} = ∅) :
    Cut newUri value [uri] s s [] where
  documents := rfl
  scope := rfl
  made := le_rfl
  nodup := List.nodup_nil
  origin := fun _ h => (List.not_mem_nil h).elim
  proper := fun _ h => (List.not_mem_nil h).elim
  frame := fun _ _ _ => rfl
  numbers := by rw [numbersOf_nil, numbersOf_singleton hlookup, hnumbers]

theorem cut_keep {uri : String} {i : Interval} (hlookup : s.intervals.lookup uri = some i)
    (hproper : i.intervalBegin ≤ i.intervalEnd)
    (hvalue : value ∉ Set.Icc i.intervalBegin i.intervalEnd) :
    Cut newUri value [uri] s s [uri] where
  documents := rfl
  scope := rfl
  made := le_rfl
  nodup := List.nodup_singleton uri
  origin := fun _ h => .inl h
  proper := fun u hu => ⟨i, by rwa [List.mem_singleton.mp hu], hproper⟩
  frame := fun _ _ _ => rfl
  numbers := by rw [numbersOf_singleton hlookup, Set.sdiff_singleton_eq_self hvalue]

theorem apart_singleton (s : Store) (uri : String) : s.Apart [uri] := fun _ hu _ hu' hne =>
  absurd ((List.mem_singleton.mp hu).trans (List.mem_singleton.mp hu').symm) hne

theorem apart_split (hnew : Function.Injective newUri) {uri : String} {i : Interval}
    (hmade : ∃ k < s.made, uri = newUri k) (hbegin : i.intervalBegin < value)
    (hend : value < i.intervalEnd) :
    ({ s.putInterval uri ⟨i.intervalBegin, value - 1⟩ with made := s.made + 1 }.putInterval
      (newUri s.made) ⟨value + 1, i.intervalEnd⟩).Apart [uri, newUri s.made] := by
  obtain ⟨-, hfirst, hsecond⟩ := lookup_split hnew i hmade
  have hfar : Far (Set.Icc i.intervalBegin (value - 1)) (Set.Icc (value + 1) i.intervalEnd) :=
    (far_Icc_iff (by omega) (by omega)).mpr (.inl (by omega))
  rw [← numbersOf_singleton hfirst, ← numbersOf_singleton hsecond] at hfar
  intro u hu u' hu' hne
  simp only [List.mem_cons, List.not_mem_nil, or_false] at hu hu'
  rcases hu with rfl | rfl <;> rcases hu' with rfl | rfl
  · exact absurd rfl hne
  · exact hfar
  · exact hfar.symm
  · exact absurd rfl hne

/-- **The loop of `revokeValue`** handles its first interval and goes on. -/
theorem revokeFrom_cons (hnew : Function.Injective newUri) (value : ℤ) (uris : List String)
    {uri : String} {i : Interval}
    (hlookup : s.intervals.lookup uri = some i) (hproper : i.intervalBegin ≤ i.intervalEnd)
    (hmade : ∃ k < s.made, uri = newUri k) :
    ∃ s₁ kept, Cut newUri value [uri] s s₁ kept ∧ s₁.Apart kept ∧
      revokeFrom newUri value (uri :: uris) s = ((revokeFrom newUri value uris s₁).1,
        (revokeFrom newUri value uris s₁).2.map fun rest => kept ++ rest) := by
  rw [revokeFrom, hlookup]
  dsimp only
  by_cases hbegin : i.intervalBegin = value
  · rw [if_pos hbegin]
    by_cases hlong : i.intervalBegin < i.intervalEnd
    · rw [if_pos hlong]
      have hnumbers : Set.Icc (value + 1) i.intervalEnd =
          Set.Icc i.intervalBegin i.intervalEnd \ {value} := by
        rw [← hbegin, Icc_diff_begin]
      have hshort : value + 1 ≤ i.intervalEnd := hbegin ▸ hlong
      exact ⟨_, [uri], cut_putInterval hlookup hshort hnumbers, apart_singleton _ uri, rfl⟩
    · rw [if_neg hlong]
      refine ⟨s, [], cut_drop hlookup ?_, fun _ h => (List.not_mem_nil h).elim, ?_⟩
      · rw [← hbegin, le_antisymm (not_lt.mp hlong) hproper, Set.Icc_self, Set.sdiff_self]
      · simp
  rw [if_neg hbegin]
  by_cases hend : i.intervalEnd = value
  · rw [if_pos hend, if_pos (lt_of_le_of_ne hproper fun heq => hbegin (heq.trans hend))]
    have hnumbers : Set.Icc i.intervalBegin (value - 1) =
        Set.Icc i.intervalBegin i.intervalEnd \ {value} := by
      rw [← hend, Icc_diff_end]
    have hshort : i.intervalBegin ≤ value - 1 :=
      Int.le_sub_one_of_lt (lt_of_le_of_ne (hend ▸ hproper) hbegin)
    exact ⟨_, [uri], cut_putInterval hlookup hshort hnumbers, apart_singleton _ uri, rfl⟩
  rw [if_neg hend]
  by_cases hinside : i.intervalBegin < value ∧ value < i.intervalEnd
  · rw [if_pos hinside]
    exact ⟨_, [uri, newUri s.made], cut_split hnew hlookup hmade hinside.1 hinside.2,
      apart_split hnew hmade hinside.1 hinside.2, rfl⟩
  · rw [if_neg hinside]
    refine ⟨s, [uri], cut_keep hlookup hproper fun hmem => hinside ?_, apart_singleton _ uri, rfl⟩
    exact ⟨lt_of_le_of_ne hmem.1 hbegin, lt_of_le_of_ne hmem.2 (Ne.symm hend)⟩

/-- **The loop of `revokeValue`** takes the number out of all intervals. -/
theorem cut_revokeFrom (hnew : Function.Injective newUri) (hnodup : uris.Nodup)
    (hstored : ∀ uri ∈ uris, ∃ i, s.intervals.lookup uri = some i ∧
      i.intervalBegin ≤ i.intervalEnd)
    (hmade : ∀ uri ∈ uris, ∃ k < s.made, uri = newUri k) :
    ∃ s' rest, revokeFrom newUri value uris s = (s', some rest) ∧
      Cut newUri value uris s s' rest ∧ (s.Apart uris → s'.Apart rest) := by
  induction uris generalizing s with
  | nil =>
    refine ⟨s, [], rfl, ⟨rfl, rfl, le_rfl, List.nodup_nil, fun _ h => (List.not_mem_nil h).elim,
      fun _ h => (List.not_mem_nil h).elim, fun _ _ _ => rfl, ?_⟩, id⟩
    rw [numbersOf_nil, Set.empty_sdiff]
  | cons uri uris ih =>
    obtain ⟨hnotMem, hnodup⟩ := List.nodup_cons.mp hnodup
    obtain ⟨i, hlookup, hproper⟩ := hstored uri List.mem_cons_self
    obtain ⟨s₁, kept, hcut, hapart, hrun⟩ :=
      revokeFrom_cons hnew value uris hlookup hproper (hmade uri List.mem_cons_self)
    have hdisjoint : [uri].Disjoint uris := fun u hu hu' =>
      hnotMem (List.mem_singleton.mp hu ▸ hu')
    have hsame := hcut.lookup_left hnew hdisjoint hmade
    obtain ⟨s₂, rest, hrest, hcut', hapart'⟩ := ih hnodup
      (fun u hu => by
        rw [hsame u hu]
        exact hstored u (List.mem_cons_of_mem _ hu))
      (fun u hu => by
        obtain ⟨k, hk, heq⟩ := hmade u (List.mem_cons_of_mem _ hu)
        exact ⟨k, hk.trans_le hcut.made, heq⟩)
    refine ⟨s₂, kept ++ rest, ?_, hcut.append hnew hcut' hdisjoint hmade, fun hall => ?_⟩
    · rw [hrun, hrest]
      rfl
    · refine hcut.apart hnew hcut' hdisjoint hmade (fun a ha b hb => ?_) hapart (hapart' ?_)
      · obtain ⟨u, hu, hb⟩ := hb
        exact hall uri List.mem_cons_self u (List.mem_cons_of_mem _ hu)
          (fun heq => hnotMem (heq ▸ hu)) a ha b ⟨u, List.mem_singleton_self u, hb⟩
      · intro u hu u' hu' hne
        rw [numbersOf_congr fun v hv => hsame v (List.mem_singleton.mp hv ▸ hu),
          numbersOf_congr fun v hv => hsame v (List.mem_singleton.mp hv ▸ hu')]
        exact hall u (List.mem_cons_of_mem _ hu) u' (List.mem_cons_of_mem _ hu') hne

/-- **Revoking** takes exactly one number away. -/
theorem Sound.revokeValue (h : Sound newUri s) (hnew : Function.Injective newUri) (value : ℤ) :
    Sound newUri (revokeValue newUri value s) ∧
      (Numerator.revokeValue newUri value s).committed = s.committed \ {value} ∧
      (Numerator.revokeValue newUri value s).documents = s.documents := by
  unfold Numerator.revokeValue
  cases hscope : s.scope with
  | none =>
    have hnone : s.committed = ∅ := by
      rw [Store.committed, Store.uris, hscope, Option.getD_none, numbersOf_nil]
    exact ⟨h, by rw [hnone, Set.empty_sdiff], rfl⟩
  | some uris =>
    have huris : s.uris = uris := by rw [Store.uris, hscope, Option.getD_some]
    obtain ⟨s', rest, hrun, hcut, -⟩ := @cut_revokeFrom newUri s uris value hnew
      (huris ▸ h.nodup) (huris ▸ h.stored) (huris ▸ h.made)
    dsimp only
    rw [hrun]
    refine ⟨⟨hcut.nodup, hcut.proper, fun uri huri => ?_⟩, ?_, hcut.documents⟩
    · rcases hcut.origin uri huri with hmem | ⟨k, -, hk, heq⟩
      · obtain ⟨k, hk, heq⟩ := h.made uri (huris ▸ hmem)
        exact ⟨k, hk.trans_le hcut.made, heq⟩
      · exact ⟨k, hk, heq⟩
    · have hnumbers := hcut.numbers
      rw [← huris] at hnumbers
      exact hnumbers

end Revoking

/-! ## Committing -/

section Committing

variable {newUri : ℕ → String} {s : Store} {value : Value}

/-- The interval before a number, if the loop has found one. -/
def IsPrev (s : Store) (value : Value) (uris : List String) (p : String × Interval) : Prop :=
  p.1 ∈ uris ∧ s.intervals.lookup p.1 = some p.2 ∧ p.2.intervalEnd = value.number - 1

/-- The interval after a number, if the loop has found one. -/
def IsNext (s : Store) (value : Value) (uris : List String) (p : String × Interval) : Prop :=
  p.1 ∈ uris ∧ s.intervals.lookup p.1 = some p.2 ∧ p.2.intervalBegin = value.plusOne

theorem placeOf_cases (s : Store) (value : Value) (uris : List String)
    (prev next : Option (String × Interval)) :
    (placeOf s value uris prev next = .committed ∧ value.number ∈ s.numbersOf uris) ∨
      ∃ prev' next', placeOf s value uris prev next = .beside prev' next' ∧
        value.number ∉ s.numbersOf uris ∧
        (∀ p, prev' = some p → prev = some p ∨ IsPrev s value uris p) ∧
        ∀ p, next' = some p → next = some p ∨ IsNext s value uris p := by
  induction uris generalizing prev next with
  | nil => exact .inr ⟨prev, next, rfl, by simp, fun _ h => .inl h, fun _ h => .inl h⟩
  | cons uri uris ih =>
    have hprev : ∀ p, IsPrev s value uris p → IsPrev s value (uri :: uris) p := fun p hp =>
      ⟨List.mem_cons_of_mem _ hp.1, hp.2⟩
    have hnext : ∀ p, IsNext s value uris p → IsNext s value (uri :: uris) p := fun p hp =>
      ⟨List.mem_cons_of_mem _ hp.1, hp.2⟩
    rw [numbersOf_cons]
    unfold placeOf
    cases hlookup : s.intervals.lookup uri with
    | none =>
      have hnone : s.numbersOf [uri] = ∅ := by
        ext n
        simp [Store.numbersOf, hlookup]
      rw [hnone, Set.empty_union]
      obtain hin | ⟨prev', next', hrun, hout, hp, hn⟩ := ih prev next
      · exact .inl hin
      · exact .inr ⟨prev', next', hrun, hout, fun p h => (hp p h).imp_right (hprev p),
          fun p h => (hn p h).imp_right (hnext p)⟩
    | some i =>
      dsimp only
      rw [numbersOf_singleton hlookup]
      by_cases hin : i.intervalBegin ≤ value.number ∧ value.number ≤ i.intervalEnd
      · rw [if_pos hin]
        exact .inl ⟨rfl, .inl hin⟩
      rw [if_neg hin]
      have hout : ∀ {S : Set ℤ}, value.number ∉ S →
          value.number ∉ Set.Icc i.intervalBegin i.intervalEnd ∪ S :=
        fun hS hmem => hmem.elim hin hS
      by_cases hbegin : i.intervalBegin = value.plusOne
      · rw [if_pos hbegin]
        obtain ⟨hrun, hmem⟩ | ⟨prev', next', hrun, hmem, hp, hn⟩ := ih prev (some (uri, i))
        · exact .inl ⟨hrun, .inr hmem⟩
        · refine .inr ⟨prev', next', hrun, hout hmem, fun p h => (hp p h).imp_right (hprev p),
            fun p h => .inr ?_⟩
          rcases hn p h with heq | hn
          · obtain rfl := Option.some.inj heq
            exact ⟨List.mem_cons_self, hlookup, hbegin⟩
          · exact hnext p hn
      rw [if_neg hbegin]
      by_cases hend : i.intervalEnd = value.number - 1
      · rw [if_pos hend]
        obtain ⟨hrun, hmem⟩ | ⟨prev', next', hrun, hmem, hp, hn⟩ := ih (some (uri, i)) next
        · exact .inl ⟨hrun, .inr hmem⟩
        · refine .inr ⟨prev', next', hrun, hout hmem, fun p h => .inr ?_,
            fun p h => (hn p h).imp_right (hnext p)⟩
          rcases hp p h with heq | hp
          · obtain rfl := Option.some.inj heq
            exact ⟨List.mem_cons_self, hlookup, hend⟩
          · exact hprev p hp
      rw [if_neg hend]
      obtain ⟨hrun, hmem⟩ | ⟨prev', next', hrun, hmem, hp, hn⟩ := ih prev next
      · exact .inl ⟨hrun, .inr hmem⟩
      · exact .inr ⟨prev', next', hrun, hout hmem, fun p h => (hp p h).imp_right (hprev p),
          fun p h => (hn p h).imp_right (hnext p)⟩

theorem Sound.putInterval (h : Sound newUri s) {uri : String} {i : Interval}
    (hproper : i.intervalBegin ≤ i.intervalEnd) : Sound newUri (s.putInterval uri i) := by
  refine ⟨h.nodup, fun u hu => ?_, h.made⟩
  by_cases heq : u = uri
  · exact ⟨i, by rw [heq]; exact AList.lookup_insert .., hproper⟩
  · obtain ⟨j, hj, hj'⟩ := h.stored u hu
    exact ⟨j, (AList.lookup_insert_ne heq).trans hj, hj'⟩

theorem mem_committed_putInterval {uri : String} {i : Interval} {n : ℤ} (huri : uri ∈ s.uris) :
    n ∈ (s.putInterval uri i).committed ↔ n ∈ Set.Icc i.intervalBegin i.intervalEnd ∨
      ∃ u ∈ s.uris, u ≠ uri ∧ ∃ j, s.intervals.lookup u = some j ∧
        n ∈ Set.Icc j.intervalBegin j.intervalEnd := by
  constructor
  · rintro ⟨u, hu, j, hj, hn⟩
    by_cases heq : u = uri
    · rw [heq] at hj
      obtain rfl : i = j := Option.some.inj ((AList.lookup_insert ..).symm.trans hj)
      exact .inl hn
    · exact .inr ⟨u, hu, heq, j, (AList.lookup_insert_ne heq).symm.trans hj, hn⟩
  · rintro (hn | ⟨u, hu, heq, j, hj, hn⟩)
    · exact ⟨uri, huri, i, AList.lookup_insert .., hn⟩
    · exact ⟨u, hu, j, (AList.lookup_insert_ne heq).trans hj, hn⟩

theorem committed_putInterval_of_longer {uri : String} {i i' : Interval} {m : ℤ}
    (huri : uri ∈ s.uris) (hlookup : s.intervals.lookup uri = some i)
    (hlonger : Set.Icc i'.intervalBegin i'.intervalEnd =
      insert m (Set.Icc i.intervalBegin i.intervalEnd)) :
    (s.putInterval uri i').committed = insert m s.committed := by
  ext n
  rw [mem_committed_putInterval huri, hlonger, Set.mem_insert_iff, Set.mem_insert_iff, or_assoc]
  refine or_congr_right ⟨?_, ?_⟩
  · rintro (hn | ⟨u, hu, -, j, hj, hn⟩)
    · exact ⟨uri, huri, i, hlookup, hn⟩
    · exact ⟨u, hu, j, hj, hn⟩
  · rintro ⟨u, hu, j, hj, hn⟩
    by_cases heq : u = uri
    · rw [heq] at hj
      obtain rfl : i = j := Option.some.inj (hlookup.symm.trans hj)
      exact .inl hn
    · exact .inr ⟨u, hu, heq, j, hj, hn⟩

/-- **Committing** adds exactly one number. A text must not meet an interval by joining the digit. -/
theorem Sound.commitValue (h : Sound newUri s) (hnew : Function.Injective newUri)
    (hvalue : value.isText = true → value.number * 10 + 1 ∉ s.committed) :
    Sound newUri (commitValue newUri value s) ∧
      (Numerator.commitValue newUri value s).committed = insert value.number s.committed ∧
      (Numerator.commitValue newUri value s).documents = s.documents := by
  unfold Numerator.commitValue
  obtain ⟨hrun, hmem⟩ | ⟨prev, next, hrun, hout, hprev, hnext⟩ :=
    placeOf_cases s value s.uris none none
  · rw [hrun]
    exact ⟨h, (Set.insert_eq_of_mem hmem).symm, rfl⟩
  have hprev : ∀ p, prev = some p → IsPrev s value s.uris p := fun p hp =>
    (hprev p hp).resolve_left (by simp)
  -- The interval after the number begins at the next number, as a text meets none.
  have hnext : ∀ p, next = some p → p.1 ∈ s.uris ∧ s.intervals.lookup p.1 = some p.2 ∧
      p.2.intervalBegin = value.number + 1 := by
    intro p hp
    obtain ⟨huri, hlookup, hbegin⟩ := (hnext p hp).resolve_left (by simp)
    refine ⟨huri, hlookup, ?_⟩
    unfold Value.plusOne at hbegin
    split_ifs at hbegin with htext
    · obtain ⟨i, hi, hproper⟩ := h.stored p.1 huri
      obtain rfl : i = p.2 := Option.some.inj (hi.symm.trans hlookup)
      exact absurd ⟨p.1, huri, p.2, hlookup, hbegin.le, hbegin ▸ hproper⟩ (hvalue htext)
    · exact hbegin
  have hproper : ∀ uri i, uri ∈ s.uris → s.intervals.lookup uri = some i →
      i.intervalBegin ≤ i.intervalEnd := by
    intro uri i huri hi
    obtain ⟨j, hj, hproper⟩ := h.stored uri huri
    obtain rfl : j = i := Option.some.inj (hj.symm.trans hi)
    exact hproper
  rw [hrun]
  cases prev with
  | none =>
    cases next with
    | none =>
      have hfresh : ∀ uri ∈ s.uris, uri ≠ newUri s.made := by
        intro uri huri heq
        obtain ⟨k, hk, rfl⟩ := h.made uri huri
        exact absurd (hnew heq) hk.ne
      set s₁ : Store := { s with made := s.made + 1 }.putInterval (newUri s.made)
        ⟨value.number, value.number⟩ with hs₁
      have hold : ∀ uri ∈ s.uris, s₁.intervals.lookup uri = s.intervals.lookup uri :=
        fun uri huri => AList.lookup_insert_ne (hfresh uri huri)
      have hself : s₁.intervals.lookup (newUri s.made) = some ⟨value.number, value.number⟩ :=
        AList.lookup_insert ..
      refine ⟨⟨?_, fun uri huri => ?_, fun uri huri => ?_⟩, ?_, rfl⟩
      · refine h.nodup.append (List.nodup_singleton _) fun uri huri huri' => ?_
        exact hfresh uri huri (List.mem_singleton.mp huri')
      · rcases List.mem_append.mp huri with huri | huri
        · obtain ⟨i, hi, hproper⟩ := h.stored uri huri
          exact ⟨i, (hold uri huri).trans hi, hproper⟩
        · rw [List.mem_singleton.mp huri]
          exact ⟨_, hself, le_rfl⟩
      · rcases List.mem_append.mp huri with huri | huri
        · obtain ⟨k, hk, heq⟩ := h.made uri huri
          exact ⟨k, Nat.lt_succ_of_lt hk, heq⟩
        · exact ⟨s.made, Nat.lt_succ_self _, List.mem_singleton.mp huri⟩
      · change s₁.numbersOf (s.uris ++ [newUri s.made]) = _
        rw [numbersOf_append, numbersOf_congr hold, numbersOf_singleton hself, Set.Icc_self,
          Set.union_singleton, Store.committed]
    | some q =>
      obtain ⟨hqUri, hq, hqBegin⟩ := hnext q rfl
      have hqProper := hproper _ _ hqUri hq
      refine ⟨h.putInterval (by dsimp only; omega), committed_putInterval_of_longer hqUri hq ?_, rfl⟩
      ext n
      simp only [Set.mem_Icc, Set.mem_insert_iff]
      omega
  | some p =>
    obtain ⟨hpUri, hp, hpEnd⟩ := hprev p rfl
    have hpProper := hproper _ _ hpUri hp
    cases next with
    | none =>
      refine ⟨h.putInterval (by dsimp only; omega), committed_putInterval_of_longer hpUri hp ?_, rfl⟩
      ext n
      simp only [Set.mem_Icc, Set.mem_insert_iff]
      omega
    | some q =>
      obtain ⟨hqUri, hq, hqBegin⟩ := hnext q rfl
      have hqProper := hproper _ _ hqUri hq
      have hne : p.1 ≠ q.1 := by
        intro heq
        have hsame : p.2 = q.2 := Option.some.inj (hp.symm.trans (heq ▸ hq))
        rw [hsame] at hpEnd
        omega
      obtain ⟨pUri, p⟩ := p
      obtain ⟨qUri, q⟩ := q
      dsimp only at hpUri hp hpEnd hpProper hqUri hq hqBegin hqProper hne
      set s₁ := s.putInterval pUri { p with intervalEnd := q.intervalEnd } with hs₁
      have hsound : Sound newUri s₁ := h.putInterval (by dsimp only; omega)
      have hself : s₁.intervals.lookup pUri = some { p with intervalEnd := q.intervalEnd } :=
        AList.lookup_insert ..
      have hold : ∀ uri, uri ≠ pUri → s₁.intervals.lookup uri = s.intervals.lookup uri :=
        fun uri huri => AList.lookup_insert_ne huri
      have hkept : ∀ uri, uri ∈ s.uris.filter (fun uri => uri ≠ qUri) ↔
          uri ∈ s.uris ∧ uri ≠ qUri := fun uri => by
        rw [List.mem_filter, decide_eq_true_iff]
      refine ⟨⟨hsound.nodup.filter _, fun uri huri => hsound.stored uri ((hkept uri).mp huri).1,
        fun uri huri => hsound.made uri ((hkept uri).mp huri).1⟩, ?_, rfl⟩
      ext m
      constructor
      · rintro ⟨uri, huri, i, hi, hm⟩
        obtain ⟨huri, -⟩ := (hkept uri).mp huri
        by_cases heq : uri = pUri
        · rw [heq] at hi
          obtain rfl := Option.some.inj (hself.symm.trans hi)
          obtain ⟨hle, hge⟩ := hm
          obtain hlt | rfl | hgt := lt_trichotomy m value.number
          · exact .inr ⟨pUri, hpUri, p, hp, hle, by omega⟩
          · exact .inl rfl
          · exact .inr ⟨qUri, hqUri, q, hq, by omega, hge⟩
        · exact .inr ⟨uri, huri, i, (hold uri heq).symm.trans hi, hm⟩
      · have hmerged : ∀ {m}, p.intervalBegin ≤ m → m ≤ q.intervalEnd →
            ∃ uri ∈ s.uris.filter (fun uri => uri ≠ qUri), ∃ i,
              s₁.intervals.lookup uri = some i ∧ m ∈ Set.Icc i.intervalBegin i.intervalEnd :=
          fun hle hge => ⟨pUri, (hkept pUri).mpr ⟨hpUri, hne⟩, _, hself, hle, hge⟩
        rintro (rfl | ⟨uri, huri, i, hi, hm⟩)
        · exact hmerged (by omega) (by omega)
        · by_cases hpeq : uri = pUri
          · rw [hpeq] at hi
            obtain rfl : p = i := Option.some.inj (hp.symm.trans hi)
            exact hmerged hm.1 (by have := hm.2; omega)
          · by_cases hqeq : uri = qUri
            · rw [hqeq] at hi
              obtain rfl : q = i := Option.some.inj (hq.symm.trans hi)
              exact hmerged (by have := hm.1; omega) hm.2
            · exact ⟨uri, (hkept uri).mpr ⟨huri, hqeq⟩, i, (hold uri hpeq).trans hi, hm⟩

end Committing

/-! ## The next value -/

section Next

variable {newUri : ℕ → String} {s : Store}

theorem le_maxEnd (uris : List String) (start : ℤ) :
    start ≤ uris.foldl (fun max uri =>
        match s.intervals.lookup uri with
        | some i => if i.intervalEnd > max then i.intervalEnd else max
        | none => max) start ∧
      ∀ n ∈ s.numbersOf uris, n ≤ uris.foldl (fun max uri =>
        match s.intervals.lookup uri with
        | some i => if i.intervalEnd > max then i.intervalEnd else max
        | none => max) start := by
  induction uris generalizing start with
  | nil => exact ⟨le_rfl, by simp⟩
  | cons uri uris ih =>
    rw [List.foldl_cons]
    obtain ⟨hstart, hall⟩ := ih (match s.intervals.lookup uri with
      | some i => if i.intervalEnd > start then i.intervalEnd else start
      | none => start)
    rw [numbersOf_cons]
    refine ⟨le_trans ?_ hstart, fun n hn => ?_⟩
    · cases s.intervals.lookup uri with
      | none => exact le_rfl
      | some i =>
        dsimp only
        split_ifs with hlt
        · exact hlt.le
        · exact le_rfl
    · rcases hn with ⟨u, hu, i, hi, hn⟩ | hn
      · rw [List.mem_singleton.mp hu] at hi
        refine (hn.2.trans ?_).trans hstart
        rw [hi]
        dsimp only
        split_ifs with hlt
        · exact le_rfl
        · exact not_lt.mp hlt
      · exact hall n hn

/-- **The next value** is not taken, and as a text it meets no interval by joining the digit. -/
theorem getNextValueSimple_notMem (s : Store) (firstValue : ℤ) :
    (getNextValueSimple s firstValue).number ∉ s.committed ∧
      (getNextValueSimple s firstValue).number * 10 + 1 ∉ s.committed := by
  unfold getNextValueSimple
  split_ifs with hempty
  · have hnone : s.committed = ∅ := by rw [Store.committed, hempty, numbersOf_nil]
    rw [hnone]
    exact ⟨Set.notMem_empty _, Set.notMem_empty _⟩
  · obtain ⟨hzero, hall⟩ := le_maxEnd (s := s) s.uris 0
    have hall : ∀ n ∈ s.committed, n ≤ maxEnd s s.uris := hall
    have hzero : 0 ≤ maxEnd s s.uris := hzero
    refine ⟨fun hmem => ?_, fun hmem => ?_⟩
    · exact absurd (hall _ hmem) (by dsimp only; omega)
    · exact absurd (hall _ hmem) (by dsimp only; omega)

end Next

end Veda.Numerator
