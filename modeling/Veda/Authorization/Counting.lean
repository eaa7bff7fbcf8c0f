import Veda.Authorization.RoundTrip

set_option autoImplicit false

/-!
# Reference counts

One call of `updateCounters` treats each access bit on its own: it changes the counter of the
letter of the bit and the bit itself, and nothing else.

## Main definitions

* `Authorization.nextCount`, `Authorization.nextBit` — the counter of a letter and the
  bit of the access byte after one call.

## Main results

* `Authorization.lookup_updateCounters`, `Authorization.has_updateCounters`,
  `Authorization.lookup_updateCounters_other` — what a call does.
-/

namespace Veda.Authorization

open Veda.Lib

/-- The counter of a letter after one call, from the bit in the previous access, the bit in the
current access and the counter before. -/
def nextCount (prev cur isDeleted : Bool) : Option (BitVec 16) → Option (BitVec 16)
  | some cc =>
    if cur then
      if isDeleted then if prev then some (cc - 1) else some cc
      else some (cc + 1)
    else some cc
  | none => if !isDeleted && cur then some 1 else none

/-- The bit of the access byte after one call: it is cleared when its count drops to zero. -/
def nextBit (prev cur isDeleted : Bool) : Option (BitVec 16) → Bool
  | some cc => if cur && isDeleted && prev && cc - 1 == 0 then false else cur
  | none => cur

theorem updateCounter_letter (prev : U8) (isDeleted : Bool) (m : Counters) (out : U8)
    (a : Access) :
    (updateCounter prev isDeleted (m, out) a.letter).1.lookup a.letter =
        nextCount (has prev a) (has out a) isDeleted (m.lookup a.letter) ∧
      has (updateCounter prev isDeleted (m, out) a.letter).2 a =
        nextBit (has prev a) (has out a) isDeleted (m.lookup a.letter) ∧
      (∀ c ≠ a.letter,
        (updateCounter prev isDeleted (m, out) a.letter).1.lookup c = m.lookup c) ∧
      ∀ b ≠ a, has (updateCounter prev isDeleted (m, out) a.letter).2 b = has out b := by
  unfold updateCounter
  simp only [access8FromChar_letter, and_toU8_ne_zero]
  cases hm : m.lookup a.letter with
  | none =>
    cases isDeleted with
    | true => simp [nextCount, nextBit, hm]
    | false =>
      cases ho : has out a with
      | false => simp [nextCount, nextBit, hm, ho]
      | true =>
        refine ⟨by simp [nextCount], by simp [nextBit, ho], fun c hc => ?_, fun b hb => ?_⟩
        · simp [AList.lookup_insert_ne hc]
        · simp [has_toU8, hb.symm]
  | some cc =>
    cases ho : has out a with
    | false => simp [nextCount, nextBit, hm, ho]
    | true =>
      cases isDeleted with
      | false =>
        refine ⟨by simp [nextCount], by simp [nextBit, ho], fun c hc => ?_, fun b hb => ?_⟩
        · simp [AList.lookup_insert_ne hc]
        · simp [has_toU8, hb.symm]
      | true =>
        cases hp : has prev a with
        | false => simp [nextCount, nextBit, hm, ho]
        | true =>
          refine ⟨by simp [nextCount], ?_, fun c hc => ?_, fun b hb => ?_⟩
          · by_cases h0 : cc - 1#16 = 0#16
            · simp [nextBit, h0, has_not, has_toU8]
            · simp [nextBit, h0, ho]
          · simp [AList.lookup_insert_ne hc]
          · by_cases h0 : cc - 1#16 = 0#16
            · simp [h0, has_not, has_toU8, hb.symm]
            · simp [h0]

/-- The loop over a list of distinct letters: every letter of the list is treated once, the
others keep their counters and bits.

**Proof sketch.** Induction on the list. The round of the first letter changes only its own
counter and bit (`updateCounter_letter`), and since the letters are distinct the later rounds
leave these as they are. -/
theorem foldl_updateCounter (prev : U8) (isDeleted : Bool) (l : List Access) (hl : l.Nodup)
    (m : Counters) (out : U8) :
    (∀ a, ((l.map Access.letter).foldl (updateCounter prev isDeleted) (m, out)).1.lookup
        a.letter = if a ∈ l then
          nextCount (has prev a) (has out a) isDeleted (m.lookup a.letter)
        else m.lookup a.letter) ∧
      (∀ a, has ((l.map Access.letter).foldl (updateCounter prev isDeleted) (m, out)).2 a =
        if a ∈ l then nextBit (has prev a) (has out a) isDeleted (m.lookup a.letter)
        else has out a) ∧
      ∀ c, (∀ a : Access, c ≠ a.letter) →
        ((l.map Access.letter).foldl (updateCounter prev isDeleted) (m, out)).1.lookup c =
          m.lookup c := by
  induction l generalizing m out with
  | nil => simp
  | cons b l ih =>
    rw [List.nodup_cons] at hl
    obtain ⟨h1, h2, h3, h4⟩ := updateCounter_letter prev isDeleted m out b
    obtain ⟨i1, i2, i3⟩ := ih hl.2 (updateCounter prev isDeleted (m, out) b.letter).1
      (updateCounter prev isDeleted (m, out) b.letter).2
    simp only [List.map_cons, List.foldl_cons, List.mem_cons]
    refine ⟨fun a => ?_, fun a => ?_, fun c hc => ?_⟩
    · rw [i1 a]
      by_cases hab : a = b
      · subst hab
        simp [hl.1, h1]
      · simp [hab, h3 a.letter fun h => hab (letter_injective.mp h), h4 a hab]
    · rw [i2 a]
      by_cases hab : a = b
      · subst hab
        simp [hl.1, h2]
      · simp [hab, h3 a.letter fun h => hab (letter_injective.mp h), h4 a hab]
    · rw [i3 c hc, h3 c (hc b)]

section UpdateCounters

variable (counters : Counters) (prev cur : U8) (isDeleted : Bool)

theorem lookup_updateCounters (a : Access) :
    (updateCounters counters prev cur isDeleted).1.lookup a.letter =
      nextCount (has prev a) (has cur a) isDeleted (counters.lookup a.letter) := by
  rw [updateCounters, accessCFullList_eq,
    (foldl_updateCounter prev isDeleted _ Access.nodup_all counters cur).1,
    if_pos (Access.mem_all a)]

theorem has_updateCounters (a : Access) :
    has (updateCounters counters prev cur isDeleted).2 a =
      nextBit (has prev a) (has cur a) isDeleted (counters.lookup a.letter) := by
  rw [updateCounters, accessCFullList_eq,
    (foldl_updateCounter prev isDeleted _ Access.nodup_all counters cur).2.1,
    if_pos (Access.mem_all a)]

theorem lookup_updateCounters_other {c : Char} (hc : ∀ a : Access, c ≠ a.letter) :
    (updateCounters counters prev cur isDeleted).1.lookup c = counters.lookup c := by
  rw [updateCounters, accessCFullList_eq]
  exact (foldl_updateCounter prev isDeleted _ Access.nodup_all counters cur).2.2 c hc

end UpdateCounters

end Veda.Authorization
