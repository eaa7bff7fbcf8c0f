import Mathlib.Tactic.NormNum
import Veda.Numerator.Documents

set_option autoImplicit false

/-!
# The intervals of a scope as a set of numbers

The intervals of a scope are disjoint and not next to each other, and together they are the numbers
that were committed and not revoked since. The scripts calculate with numbers that have 53 binary
digits, so that the neighbours of a number are the right ones below 2 ^ 53 only; beyond, a number
that is revoked can stay in its interval.

## Main definitions

* `Numerator.toDouble` — the number of a script that is nearest to an integer.
* `Numerator.Double.commitValue`, `Numerator.Double.revokeValue`,
  `Numerator.Double.getNextValueSimple` — the operations on a scope, with numbers of scripts.
* `Numerator.Op`, `Numerator.runOps` — sequences of operations.
* `Numerator.IsNumberSet` — the intervals of a scope are a set of numbers.
* `Numerator.KeepsNumbers` — what holds after every sequence of operations.

## Main results

* `Numerator.apart_commitValue`, `Numerator.apart_revokeValue` — intervals stay apart.
* `Numerator.Double.commitValue_eq`, `Numerator.Double.revokeValue_eq` — below 2 ^ 53 the
  operations are those on integers.
* `Numerator.keepsNumbers_of_safe` — every sequence of operations with such numbers.
* `Numerator.not_keepsNumbers` — beyond.

## Design

The operations on integers of `Numerator.Scope` are the abstract level here, and those on
numbers of scripts refine them below 2 ^ 53. Integers that are not numbers of scripts do not occur.
-/

namespace Veda.Numerator

open Veda.Lib

/-! ## Intervals that are apart -/

section Apart

variable {newUri : ℕ → String} {s : Store} {uris : List String}

theorem numbersOf_putInterval_self (uri : String) (i : Interval) :
    (s.putInterval uri i).numbersOf [uri] = Set.Icc i.intervalBegin i.intervalEnd :=
  numbersOf_singleton (AList.lookup_insert ..)

theorem numbersOf_putInterval_ne {uri u : String} (i : Interval) (h : u ≠ uri) :
    (s.putInterval uri i).numbersOf [u] = s.numbersOf [u] :=
  numbersOf_congr fun _ hv => AList.lookup_insert_ne (List.mem_singleton.mp hv ▸ h)

theorem Store.Apart.putInterval {uri : String} {i : Interval}
    (h : s.Apart (uris.filter fun u => u ≠ uri))
    (hfar : ∀ u ∈ uris, u ≠ uri →
      Far (Set.Icc i.intervalBegin i.intervalEnd) (s.numbersOf [u])) :
    (s.putInterval uri i).Apart uris := by
  intro u hu u' hu' hne
  by_cases huri : u = uri
  · have huri' : u' ≠ uri := huri ▸ hne.symm
    rw [huri, numbersOf_putInterval_self, numbersOf_putInterval_ne i huri']
    exact hfar u' hu' huri'
  · rw [numbersOf_putInterval_ne i huri]
    by_cases huri' : u' = uri
    · rw [huri', numbersOf_putInterval_self]
      exact (hfar u hu huri).symm
    · rw [numbersOf_putInterval_ne i huri']
      exact h u (List.mem_filter.mpr ⟨hu, decide_eq_true huri⟩) u'
        (List.mem_filter.mpr ⟨hu', decide_eq_true huri'⟩) hne

theorem Store.Apart.mono {uris' : List String} (h : s.Apart uris) (hsub : uris' ⊆ uris) :
    s.Apart uris' :=
  fun u hu u' hu' => h u (hsub hu) u' (hsub hu')

theorem placeOf_beside {value : Value} {prev next prev' next' : Option (String × Interval)}
    (h : placeOf s value uris prev next = .beside prev' next') :
    (prev' = none → prev = none ∧ ∀ u ∈ uris, ∀ i, s.intervals.lookup u = some i →
      i.intervalBegin ≠ value.plusOne → i.intervalEnd ≠ value.number - 1) ∧
    (next' = none → next = none ∧ ∀ u ∈ uris, ∀ i, s.intervals.lookup u = some i →
      i.intervalBegin ≠ value.plusOne) := by
  induction uris generalizing prev next with
  | nil =>
    cases h
    exact ⟨fun h => ⟨h, by simp⟩, fun h => ⟨h, by simp⟩⟩
  | cons uri uris ih =>
    unfold placeOf at h
    simp only [List.forall_mem_cons]
    cases hlookup : s.intervals.lookup uri with
    | none =>
      rw [hlookup] at h
      obtain ⟨hp, hn⟩ := ih h
      exact ⟨fun h' => ⟨(hp h').1, by simp, (hp h').2⟩, fun h' => ⟨(hn h').1, by simp, (hn h').2⟩⟩
    | some i =>
      rw [hlookup] at h
      dsimp only at h
      split_ifs at h with hin hbegin hend
      · obtain ⟨hp, hn⟩ := ih h
        refine ⟨fun h' => ⟨(hp h').1, ?_, (hp h').2⟩, fun h' =>
          absurd (hn h').1 (Option.some_ne_none _)⟩
        rintro j ⟨⟩ hne
        exact absurd hbegin hne
      · obtain ⟨hp, hn⟩ := ih h
        refine ⟨fun h' => absurd (hp h').1 (Option.some_ne_none _), fun h' => ⟨(hn h').1, ?_, (hn h').2⟩⟩
        rintro j ⟨⟩
        exact hbegin
      · obtain ⟨hp, hn⟩ := ih h
        refine ⟨fun h' => ⟨(hp h').1, ?_, (hp h').2⟩, fun h' => ⟨(hn h').1, ?_, (hn h').2⟩⟩
        · rintro j ⟨⟩ -
          exact hend
        · rintro j ⟨⟩
          exact hbegin

/-- **Committing** a number that is not in the set keeps the intervals apart. -/
theorem apart_commitValue (h : Sound newUri s) (hnew : Function.Injective newUri)
    (hapart : s.Apart s.uris) (value : ℤ) :
    (commitValue newUri ⟨value, false⟩ s).Apart (commitValue newUri ⟨value, false⟩ s).uris := by
  -- Every interval of the scope, with how it lies to another one.
  have hstored : ∀ u ∈ s.uris, ∃ i, s.intervals.lookup u = some i ∧
      i.intervalBegin ≤ i.intervalEnd ∧
      s.numbersOf [u] = Set.Icc i.intervalBegin i.intervalEnd := fun u hu => by
    obtain ⟨i, hi, hproper⟩ := h.stored u hu
    exact ⟨i, hi, hproper, numbersOf_singleton hi⟩
  have hrest : ∀ uri, s.Apart (s.uris.filter fun u => u ≠ uri) := fun uri =>
    hapart.mono List.filter_sublist.subset
  have hbetween : ∀ u ∈ s.uris, ∀ u' ∈ s.uris, u ≠ u' → ∀ i i',
      s.intervals.lookup u = some i → s.intervals.lookup u' = some i' →
        i'.intervalBegin ≤ i'.intervalEnd ∧
          (i.intervalEnd + 1 < i'.intervalBegin ∨ i'.intervalEnd + 1 < i.intervalBegin) := by
    intro u hu u' hu' hne i i' hi hi'
    obtain ⟨j, hj, hproper, hnumbers⟩ := hstored u hu
    obtain ⟨j', hj', hproper', hnumbers'⟩ := hstored u' hu'
    obtain rfl : j = i := Option.some.inj (hj.symm.trans hi)
    obtain rfl : j' = i' := Option.some.inj (hj'.symm.trans hi')
    have hfar := hapart u hu u' hu' hne
    rw [hnumbers, hnumbers', far_Icc_iff hproper hproper'] at hfar
    exact ⟨hproper', hfar⟩
  have hplus : Value.plusOne ⟨value, false⟩ = value + 1 := rfl
  unfold commitValue
  obtain ⟨hrun, hmem⟩ | ⟨prev, next, hrun, hout, hprev, hnext⟩ :=
    placeOf_cases s ⟨value, false⟩ s.uris none none
  · rw [hrun]
    exact hapart
  obtain ⟨hnoPrev, hnoNext⟩ := placeOf_beside hrun
  have houtside : ∀ u ∈ s.uris, ∀ i, s.intervals.lookup u = some i →
      value < i.intervalBegin ∨ i.intervalEnd < value := fun u hu i hi => by
    by_contra hin
    exact hout ⟨u, hu, i, hi, by dsimp only; omega, by dsimp only; omega⟩
  have hprev : ∀ p, prev = some p → IsPrev s ⟨value, false⟩ s.uris p := fun p hp =>
    (hprev p hp).resolve_left (by simp)
  have hnext : ∀ p, next = some p → IsNext s ⟨value, false⟩ s.uris p := fun p hp =>
    (hnext p hp).resolve_left (by simp)
  rw [hrun]
  cases prev with
  | none =>
    obtain ⟨-, hnoPrev⟩ := hnoPrev rfl
    cases next with
    | none =>
      obtain ⟨-, hnoNext⟩ := hnoNext rfl
      have hfresh : newUri s.made ∉ s.uris := fun hmem =>
        ne_newUri_of_made hnew h.made _ hmem s.made le_rfl rfl
      change ({ s with made := s.made + 1 }.putInterval (newUri s.made) ⟨value, value⟩).Apart
        (s.uris ++ [newUri s.made])
      refine Store.Apart.putInterval (hapart.mono ?_) fun u hu hne => ?_
      · intro u hu
        obtain ⟨hu, hne⟩ := List.mem_filter.mp hu
        exact (List.mem_append.mp hu).resolve_right fun hu' =>
          of_decide_eq_true hne (List.mem_singleton.mp hu')
      · replace hu := (List.mem_append.mp hu).resolve_right fun hu' =>
          hne (List.mem_singleton.mp hu')
        obtain ⟨i, hi, hproper, hnumbers⟩ := hstored u hu
        change Far _ (s.numbersOf [u])
        rw [hnumbers, far_Icc_iff le_rfl hproper]
        have hbegin := hnoNext u hu i hi
        have hend := hnoPrev u hu i hi hbegin
        have hlies := houtside u hu i hi
        rw [hplus] at hbegin
        dsimp only at hend ⊢
        omega
    | some q =>
      obtain ⟨hqUri, hq, hqBegin⟩ := hnext q rfl
      rw [hplus] at hqBegin
      refine Store.Apart.putInterval (hrest q.1) fun u hu hne => ?_
      obtain ⟨i, hi, hproper, hnumbers⟩ := hstored u hu
      obtain ⟨hqProper, hlies⟩ := hbetween u hu q.1 hqUri hne i q.2 hi hq
      rw [hnumbers, far_Icc_iff (by dsimp only; omega) hproper]
      have hend := hnoPrev u hu i hi
      rw [hplus] at hend
      dsimp only at hend ⊢
      omega
  | some p =>
    obtain ⟨hpUri, hp, hpEnd⟩ := hprev p rfl
    dsimp only at hpEnd
    cases next with
    | none =>
      obtain ⟨-, hnoNext⟩ := hnoNext rfl
      refine Store.Apart.putInterval (hrest p.1) fun u hu hne => ?_
      obtain ⟨i, hi, hproper, hnumbers⟩ := hstored u hu
      obtain ⟨hpProper, hlies⟩ := hbetween u hu p.1 hpUri hne i p.2 hi hp
      rw [hnumbers, far_Icc_iff (by dsimp only; omega) hproper]
      have hbegin := hnoNext u hu i hi
      rw [hplus] at hbegin
      dsimp only
      omega
    | some q =>
      obtain ⟨hqUri, hq, hqBegin⟩ := hnext q rfl
      rw [hplus] at hqBegin
      change (s.putInterval p.1 ⟨p.2.intervalBegin, q.2.intervalEnd⟩).Apart
        (s.uris.filter fun uri => uri ≠ q.1)
      refine Store.Apart.putInterval (hapart.mono ?_) fun u hu hne => ?_
      · exact (List.filter_sublist.trans List.filter_sublist).subset
      · obtain ⟨hu, hneq⟩ := List.mem_filter.mp hu
        obtain ⟨i, hi, hproper, hnumbers⟩ := hstored u hu
        obtain ⟨hpProper, hbefore⟩ := hbetween u hu p.1 hpUri hne i p.2 hi hp
        obtain ⟨hqProper, hbehind⟩ :=
          hbetween u hu q.1 hqUri (of_decide_eq_true hneq) i q.2 hi hq
        rw [hnumbers, far_Icc_iff (by dsimp only; omega) hproper]
        dsimp only
        omega

/-- **Revoking** a number keeps the intervals apart. -/
theorem apart_revokeValue (h : Sound newUri s) (hnew : Function.Injective newUri)
    (hapart : s.Apart s.uris) (value : ℤ) :
    (revokeValue newUri value s).Apart (revokeValue newUri value s).uris := by
  unfold revokeValue
  cases hscope : s.scope with
  | none => exact hapart
  | some uris =>
    have huris : s.uris = uris := by rw [Store.uris, hscope, Option.getD_some]
    obtain ⟨s', rest, hrun, -, hrest⟩ := @cut_revokeFrom newUri s uris value hnew
      (huris ▸ h.nodup) (huris ▸ h.stored) (huris ▸ h.made)
    dsimp only
    rw [hrun]
    exact hrest (huris ▸ hapart)

theorem revokeFrom_of_notMem {value : ℤ}
    (hstored : ∀ uri ∈ uris, ∃ i, s.intervals.lookup uri = some i ∧
      i.intervalBegin ≤ i.intervalEnd)
    (h : value ∉ s.numbersOf uris) : revokeFrom newUri value uris s = (s, some uris) := by
  induction uris with
  | nil => rfl
  | cons uri uris ih =>
    rw [numbersOf_cons, Set.mem_union, not_or] at h
    obtain ⟨i, hi, hproper⟩ := hstored uri List.mem_cons_self
    have hout := h.1
    rw [numbersOf_singleton hi, Set.mem_Icc] at hout
    rw [revokeFrom, hi]
    dsimp only
    rw [if_neg (by omega), if_neg (by omega), if_neg (by omega),
      ih (fun u hu => hstored u (List.mem_cons_of_mem _ hu)) h.2]
    rfl

theorem revokeValue_of_notMem (h : Sound newUri s) {value : ℤ} (hvalue : value ∉ s.committed) :
    revokeValue newUri value s = s := by
  unfold revokeValue
  cases hscope : s.scope with
  | none => rfl
  | some uris =>
    have huris : s.uris = uris := by rw [Store.uris, hscope, Option.getD_some]
    dsimp only
    rw [revokeFrom_of_notMem (huris ▸ h.stored) (huris ▸ hvalue)]
    dsimp only
    rw [← hscope]

end Apart

/-! ## Numbers of scripts -/

/-- The distance of two neighbours among the numbers of scripts from some number on. -/
def doubleUnit (n : ℕ) : ℕ := 2 ^ (n.log2 - 52)

/-- The nearest multiple of a unit; of two that are equally near the even one. -/
def roundTo (unit n : ℕ) : ℕ :=
  let q := n / unit
  let r := n % unit
  if 2 * r < unit ∨ (2 * r = unit ∧ q % 2 = 0) then q * unit else (q + 1) * unit

/-- The number of a script that is nearest to an integer. -/
def toDouble (n : ℤ) : ℤ := n.sign * roundTo (doubleUnit n.natAbs) n.natAbs

/-- An integer is less than 2 ^ 53. -/
def Safe (value : ℤ) : Prop := 0 < value ∧ value < 2 ^ 53

theorem toDouble_of_le {n : ℤ} (h : n.natAbs ≤ 2 ^ 53) : toDouble n = n := by
  have hround : roundTo (doubleUnit n.natAbs) n.natAbs = n.natAbs := by
    rcases h.lt_or_eq with hlt | heq
    · have hlog : n.natAbs.log2 - 52 = 0 := by
        by_cases hzero : n.natAbs = 0
        · rw [hzero]
          rfl
        · have := (Nat.log2_lt hzero).mpr hlt
          omega
      simp [doubleUnit, hlog, roundTo, Nat.mod_one]
    · rw [heq]
      decide +kernel
  rw [toDouble, hround, Int.sign_mul_natAbs]

theorem Safe.plus {value : ℤ} (h : Safe value) : toDouble (value + 1) = value + 1 :=
  toDouble_of_le (by have := h.1; have := h.2; omega)

theorem Safe.minus {value : ℤ} (h : Safe value) : toDouble (value - 1) = value - 1 :=
  toDouble_of_le (by have := h.1; have := h.2; omega)

namespace Double

variable (newUri : ℕ → String)

/-- The loop of `commitValue`. -/
def placeOf (s : Store) (value : ℤ) :
    List String → Option (String × Interval) → Option (String × Interval) → Place
  | [], prev, next => .beside prev next
  | uri :: uris, prev, next =>
    match s.intervals.lookup uri with
    | none => placeOf s value uris prev next
    | some i =>
      if i.intervalBegin ≤ value ∧ value ≤ i.intervalEnd then .committed
      else if i.intervalBegin = toDouble (value + 1) then
        placeOf s value uris prev (some (uri, i))
      else if i.intervalEnd = toDouble (value - 1) then
        placeOf s value uris (some (uri, i)) next
      else placeOf s value uris prev next

/-- `commitValue`, with its answer. -/
def commitValue (value : ℤ) (s : Store) : Store × Bool :=
  match placeOf s value s.uris none none with
  | .committed => (s, false)
  | .beside (some (prevUri, prev)) (some (nextUri, next)) =>
    let s := s.putInterval prevUri { prev with intervalEnd := next.intervalEnd }
    ({ s with scope := some (s.uris.filter fun uri => uri ≠ nextUri) }, true)
  | .beside (some (prevUri, prev)) none =>
    (s.putInterval prevUri { prev with intervalEnd := value }, true)
  | .beside none (some (nextUri, next)) =>
    (s.putInterval nextUri { next with intervalBegin := value }, true)
  | .beside none none =>
    let uri := newUri s.made
    let s := { s with made := s.made + 1 }.putInterval uri ⟨value, value⟩
    ({ s with scope := some (s.uris ++ [uri]) }, true)

/-- The loop of `revokeValue`: the intervals that are left. It stops at one that cannot be read. -/
def revokeFrom (value : ℤ) : List String → Store → Store × Option (List String)
  | [], s => (s, some [])
  | uri :: uris, s =>
    match s.intervals.lookup uri with
    | none => (s, none)
    | some i =>
      if i.intervalBegin = value then
        if i.intervalBegin < i.intervalEnd then
          let (s, rest) := revokeFrom value uris
            (s.putInterval uri ⟨toDouble (value + 1), i.intervalEnd⟩)
          (s, rest.map fun rest => uri :: rest)
        else revokeFrom value uris s
      else if i.intervalEnd = value then
        if i.intervalBegin < i.intervalEnd then
          let (s, rest) := revokeFrom value uris
            (s.putInterval uri ⟨i.intervalBegin, toDouble (value - 1)⟩)
          (s, rest.map fun rest => uri :: rest)
        else revokeFrom value uris s
      else if i.intervalBegin < value ∧ value < i.intervalEnd then
        let s := s.putInterval uri ⟨i.intervalBegin, toDouble (value - 1)⟩
        let newIntervalUri := newUri s.made
        let s := { s with made := s.made + 1 }.putInterval newIntervalUri
          ⟨toDouble (value + 1), i.intervalEnd⟩
        let (s, rest) := revokeFrom value uris s
        (s, rest.map fun rest => uri :: newIntervalUri :: rest)
      else
        let (s, rest) := revokeFrom value uris s
        (s, rest.map fun rest => uri :: rest)

def revokeValue (value : ℤ) (s : Store) : Store :=
  match s.scope with
  | none => s
  | some uris =>
    match revokeFrom newUri value uris s with
    | (s, none) => s
    | (s, some intervals) => { s with scope := some intervals }

/-- `getNextValueSimple` of the server, as a number. -/
def getNextValueSimple (s : Store) (firstValue : ℤ) : ℤ :=
  if s.uris = [] then firstValue else toDouble (maxEnd s s.uris + 1)

/-! ## Safe numbers -/

section Safe

variable {newUri} {s : Store} {value : ℤ} (h : Safe value)

include h

theorem placeOf_eq (uris : List String) (prev next : Option (String × Interval)) :
    placeOf s value uris prev next = Numerator.placeOf s ⟨value, false⟩ uris prev next := by
  induction uris generalizing prev next with
  | nil => rfl
  | cons uri uris ih =>
    rw [placeOf, Numerator.placeOf, h.plus, h.minus]
    simp only [ih]
    rfl

/-- **Committing** a safe number is committing an integer. -/
theorem commitValue_eq :
    (commitValue newUri value s).1 = Numerator.commitValue newUri ⟨value, false⟩ s := by
  unfold commitValue Numerator.commitValue
  rw [placeOf_eq h]
  cases Numerator.placeOf s ⟨value, false⟩ s.uris none none with
  | committed => rfl
  | beside prev next => cases prev <;> cases next <;> rfl

theorem commitValue_answer : (commitValue newUri value s).2 = false ↔ value ∈ s.committed := by
  unfold commitValue
  rw [placeOf_eq h]
  obtain ⟨hrun, hmem⟩ | ⟨prev, next, hrun, hout, -, -⟩ :=
    placeOf_cases s ⟨value, false⟩ s.uris none none
  · rw [hrun]
    exact iff_of_true rfl hmem
  · rw [hrun]
    refine iff_of_false ?_ hout
    cases prev <;> cases next <;> simp

/-- **Revoking** a safe number is revoking an integer. -/
theorem revokeFrom_eq (uris : List String) (s : Store) :
    revokeFrom newUri value uris s = Numerator.revokeFrom newUri value uris s := by
  induction uris generalizing s with
  | nil => rfl
  | cons uri uris ih =>
    rw [revokeFrom, Numerator.revokeFrom, h.plus, h.minus]
    simp only [ih] <;> rfl

theorem revokeValue_eq : revokeValue newUri value s = Numerator.revokeValue newUri value s := by
  unfold revokeValue Numerator.revokeValue
  simp only [revokeFrom_eq h] <;> rfl

end Safe

theorem maxEnd_lt {s : Store} {uris : List String} {bound : ℤ} (hbound : 0 < bound)
    (hstored : ∀ uri ∈ uris, ∃ i, s.intervals.lookup uri = some i ∧
      i.intervalBegin ≤ i.intervalEnd)
    (h : ∀ n ∈ s.numbersOf uris, n < bound) : maxEnd s uris < bound := by
  unfold maxEnd
  generalize (0 : ℤ) = start at hbound ⊢
  induction uris generalizing start with
  | nil => exact hbound
  | cons uri uris ih =>
    obtain ⟨i, hi, hproper⟩ := hstored uri List.mem_cons_self
    have hend : i.intervalEnd < bound := h _ ⟨uri, List.mem_cons_self, i, hi, hproper, le_rfl⟩
    rw [List.foldl_cons, hi]
    have hrest : ∀ n ∈ s.numbersOf uris, n < bound := by
      rintro n ⟨u, hu, hn⟩
      exact h n ⟨u, List.mem_cons_of_mem _ hu, hn⟩
    refine ih (fun u hu => hstored u (List.mem_cons_of_mem _ hu)) hrest _ ?_
    dsimp only
    split_ifs <;> assumption

theorem getNextValueSimple_eq {s : Store} (hsound : Sound newUri s)
    (h : ∀ n ∈ s.committed, Safe n) (firstValue : ℤ) :
    getNextValueSimple s firstValue = (Numerator.getNextValueSimple s firstValue).number := by
  unfold getNextValueSimple Numerator.getNextValueSimple
  split_ifs with hempty
  · rfl
  · have hlt := maxEnd_lt (by norm_num) hsound.stored fun n hn => (h n hn).2
    have hle : 0 ≤ maxEnd s s.uris := (le_maxEnd s.uris 0).1
    exact toDouble_of_le (by omega)

end Double

/-! ## Sequences of operations -/

/-- An operation on a scope. -/
inductive Op
  | commit (value : ℤ)
  | revoke (value : ℤ)

def Op.value : Op → ℤ
  | .commit value => value
  | .revoke value => value

/-- The numbers after an operation. -/
def Op.numbers (numbers : Set ℤ) : Op → Set ℤ
  | .commit value => insert value numbers
  | .revoke value => numbers \ {value}

/-- The numbers that were committed and not revoked since. -/
def numbersAfter (ops : List Op) : Set ℤ := ops.foldl Op.numbers ∅

section Runs

variable (newUri : ℕ → String)

def Op.step (s : Store) : Op → Store
  | .commit value => (Double.commitValue newUri value s).1
  | .revoke value => Double.revokeValue newUri value s

/-- The store after some operations. -/
def runOps (s : Store) (ops : List Op) : Store := ops.foldl (Op.step newUri) s

/-- **The intervals are a set of numbers**: they are not empty, disjoint and not next to each other,
and together they are these numbers. -/
structure IsNumberSet (numbers : Set ℤ) (s : Store) : Prop where
  nodup : s.uris.Nodup
  nonempty : ∀ uri ∈ s.uris, ∃ i, s.intervals.lookup uri = some i ∧ i.intervalBegin ≤ i.intervalEnd
  apart : s.Apart s.uris
  committed : s.committed = numbers

/-- **The scope keeps the numbers** after some operations: its intervals are the set, a number is
committed when it is not in the set, a number that is not in the set is revoked without a change,
and the next value is not in the set. -/
structure KeepsNumbers (domain : ℤ → Prop) (s : Store) (ops : List Op) : Prop where
  isSet : IsNumberSet (numbersAfter ops) (runOps newUri s ops)
  commits : ∀ value, domain value →
    ((Double.commitValue newUri value (runOps newUri s ops)).2 = false ↔ value ∈ numbersAfter ops)
  revokes : ∀ value, domain value → value ∉ numbersAfter ops →
    (Double.revokeValue newUri value (runOps newUri s ops)).uris = (runOps newUri s ops).uris ∧
    (Double.revokeValue newUri value (runOps newUri s ops)).intervals =
      (runOps newUri s ops).intervals
  next : ∀ firstValue, 0 < firstValue →
    Double.getNextValueSimple (runOps newUri s ops) firstValue ∉ numbersAfter ops

variable {newUri} {s : Store} {ops : List Op}

/-- **The scope after safe operations**: its intervals are sound and apart, and they are the numbers
that were committed and not revoked since, all of them safe. -/
structure Exact (newUri : ℕ → String) (numbers : Set ℤ) (s : Store) : Prop where
  sound : Sound newUri s
  apart : s.Apart s.uris
  committed : s.committed = numbers
  safe : ∀ n ∈ numbers, Safe n

theorem Exact.step {numbers : Set ℤ} (h : Exact newUri numbers s)
    (hnew : Function.Injective newUri) {op : Op} (hop : Safe op.value) :
    Exact newUri (op.numbers numbers) (op.step newUri s) := by
  cases op with
  | commit value =>
    obtain ⟨hsound, hcommitted, -⟩ :=
      @Sound.commitValue newUri s ⟨value, false⟩ h.sound hnew fun htext => nomatch htext
    have hstep : Op.step newUri s (.commit value) = commitValue newUri ⟨value, false⟩ s :=
      Double.commitValue_eq hop
    rw [hstep]
    refine ⟨hsound, apart_commitValue h.sound hnew h.apart value, ?_, fun n hn => ?_⟩
    · rw [hcommitted, h.committed]
      rfl
    · exact hn.elim (fun heq => heq ▸ hop) (h.safe n)
  | revoke value =>
    obtain ⟨hsound, hcommitted, -⟩ := h.sound.revokeValue hnew value
    have hstep : Op.step newUri s (.revoke value) = revokeValue newUri value s :=
      Double.revokeValue_eq hop
    rw [hstep]
    refine ⟨hsound, apart_revokeValue h.sound hnew h.apart value, ?_, fun n hn => h.safe n hn.1⟩
    rw [hcommitted, h.committed]
    rfl

theorem Exact.run {numbers : Set ℤ} (h : Exact newUri numbers s)
    (hnew : Function.Injective newUri) (hops : ∀ op ∈ ops, Safe op.value) :
    Exact newUri (ops.foldl Op.numbers numbers) (runOps newUri s ops) := by
  induction ops generalizing s numbers with
  | nil => exact h
  | cons op ops ih =>
    exact ih (h.step hnew (hops op List.mem_cons_self))
      fun op hop => hops op (List.mem_cons_of_mem _ hop)

theorem exact_empty (hempty : s.uris = []) : Exact newUri ∅ s := by
  have hnone : ∀ uri, uri ∉ s.uris := fun uri huri => List.not_mem_nil (hempty ▸ huri)
  refine ⟨⟨?_, fun uri huri => absurd huri (hnone uri), fun uri huri => absurd huri (hnone uri)⟩,
    fun uri huri => absurd huri (hnone uri), ?_, fun n hn => hn.elim⟩
  · rw [hempty]
    exact List.nodup_nil
  · rw [Store.committed, hempty, numbersOf_nil]

/-- **Every sequence of operations** with positive integers below 2 ^ 53 keeps the numbers of a
scope.

**Proof sketch.** With such numbers the operations are those on integers, which add or take away one
number and leave intervals that are apart. -/
theorem keepsNumbers_of_safe (hnew : Function.Injective newUri) (hempty : s.uris = [])
    (hops : ∀ op ∈ ops, Safe op.value) : KeepsNumbers newUri Safe s ops := by
  have hexact : Exact newUri (numbersAfter ops) (runOps newUri s ops) :=
    (exact_empty hempty).run hnew hops
  refine ⟨⟨hexact.sound.nodup, hexact.sound.stored, hexact.apart, hexact.committed⟩,
    fun value hvalue => ?_, fun value hvalue hnot => ?_, fun firstValue _ => ?_⟩
  · rw [← hexact.committed]
    exact Double.commitValue_answer hvalue
  · rw [← hexact.committed] at hnot
    rw [Double.revokeValue_eq hvalue, revokeValue_of_notMem hexact.sound hnot]
    exact ⟨rfl, rfl⟩
  · rw [Double.getNextValueSimple_eq newUri hexact.sound
      (fun n hn => hexact.safe n (hexact.committed ▸ hn)), ← hexact.committed]
    exact (getNextValueSimple_notMem _ firstValue).1

end Runs

/-! ## From 2 ^ 53 on -/

/-- Numbers from one to three. -/
def smallOps : List Op := [.commit 1, .commit 3, .commit 2, .revoke 1]

theorem keepsNumbers_smallOps : KeepsNumbers countedUri Safe .empty smallOps :=
  keepsNumbers_of_safe countedUri_injective rfl (by
    intro op hop
    simp only [smallOps, List.mem_cons, List.not_mem_nil, or_false] at hop
    rcases hop with rfl | rfl | rfl | rfl <;> exact ⟨by decide, by decide⟩)

/-- Two neighbours among the numbers of scripts, of which the first one is revoked. -/
def largeOps : List Op :=
  [.commit (2 ^ 53), .commit (2 ^ 53 + 2), .revoke (2 ^ 53)]

/-- A positive integer that is a number of scripts. -/
def IsPositive (value : ℤ) : Prop := 0 < value ∧ toDouble value = value

/-- The number that is revoked stays in its interval. -/
theorem not_keepsNumbers :
    largeOps.all (fun op => 0 < op.value ∧ toDouble op.value = op.value) = true ∧
      ¬KeepsNumbers countedUri IsPositive .empty largeOps := by
  refine ⟨by decide +kernel, fun h => ?_⟩
  have hnot : (2 ^ 53 : ℤ) ∉ numbersAfter largeOps := fun hmem => hmem.2 rfl
  have hinterval : (runOps countedUri .empty largeOps).uris.any (fun uri =>
      ((runOps countedUri .empty largeOps).intervals.lookup uri).any fun i =>
        i.intervalBegin ≤ 2 ^ 53 ∧ 2 ^ 53 ≤ i.intervalEnd) = true := by decide +kernel
  obtain ⟨uri, huri, hfound⟩ := List.any_eq_true.mp hinterval
  refine hnot ?_
  rw [← h.isSet.committed]
  obtain ⟨i, hi, hin⟩ := (Option.any_eq_true ..).mp hfound
  exact ⟨uri, huri, i, hi, of_decide_eq_true hin⟩

end Veda.Numerator
