import Mathlib.Algebra.Order.Ring.Int
import Mathlib.Data.List.Pairwise
import Mathlib.Data.List.Count

set_option autoImplicit false

/-!
# Lockouts

A counter of failures with the time of the last one. An attempt is let through while the counter is
below a limit, or when the last failure is at least a period ago; an attempt that is let through
raises the counter and brings the time up to date. Then no more attempts than the limit are let
through in any time that is shorter than the period.

## Main definitions

* `Lib.Lockout.Step` — what a request can do to the counter.
* `Lib.Lockout.Steps` — requests one after another.

## Main results

* `Lib.Lockout.Steps.count_le` — the attempts in a time shorter than the period.
-/

namespace Veda.Lib.Lockout

/-- A counter of failures, and the time of the last one. -/
structure Counter where
  count : Int
  last : Int

/-- A request: its time, and whether it was let through. -/
structure Try where
  time : Int
  attempt : Bool

/-- The request is an attempt in the period that begins at `t`. -/
def Try.inPeriod (period t : Int) (e : Try) : Bool :=
  e.attempt && decide (t ≤ e.time) && decide (e.time < t + period)

section

variable (limit period : Int)

/-- What a request can do to the counter. -/
inductive Step (c : Counter) (now : Int) : Bool → Counter → Prop
  /-- nothing, or the counter is raised further -/
  | raised {c' : Counter} (hcount : c.count ≤ c'.count) (hlast : c.last ≤ c'.last ∨ now ≤ c'.last) :
    Step c now false c'
  /-- the last failure is long ago, and the counter becomes anything -/
  | expired {c' : Counter} (hlong : period ≤ now - c.last) : Step c now false c'
  /-- an attempt below the limit -/
  | attempt {c' : Counter} (hbelow : c.count < limit) (hcount : c.count < c'.count)
    (hpos : 0 < c'.count) (hlast : now ≤ c'.last) : Step c now true c'
  /-- an attempt when the last failure is long ago -/
  | attemptLater {c' : Counter} (hlong : period ≤ now - c.last) (hcount : 0 < c'.count)
    (hlast : now ≤ c'.last) : Step c now true c'

/-- Requests one after another. -/
inductive Steps : Counter → List Try → Prop
  | nil {c : Counter} : Steps c []
  | cons {c c' : Counter} {e : Try} {es : List Try} (hstep : Step limit period c e.time e.attempt c')
    (hrest : Steps c' es) : Steps c (e :: es)

end

variable {limit period : Int}

theorem countP_inPeriod_eq_zero {t : Int} {es : List Try} (h : ∀ e ∈ es, t + period ≤ e.time) :
    es.countP (Try.inPeriod period t) = 0 := by
  rw [List.countP_eq_zero]
  intro e he hin
  have hlt : e.time < t + period := by
    simp only [Try.inPeriod, Bool.and_eq_true, decide_eq_true_eq] at hin
    exact hin.2
  have := h e he
  omega

/-- The attempts in a period with those that were made before in it. The earlier ones are in the
counter, unless there are none.

**Proof sketch.** By induction on the requests. An attempt below the limit raises the counter, and so
the number of the attempts stays within the limit. When the last failure is long ago, then the period
has ended if there was an attempt in it. -/
theorem Steps.add_count_le (hlimit : 1 ≤ limit) {t : Int} {es : List Try} {c : Counter}
    (h : Steps limit period c es) (hsorted : es.Pairwise fun e e' => e.time ≤ e'.time) {k : ℕ}
    (hk : (k : Int) ≤ limit)
    (hcounted : k = 0 ∨ ((k : Int) ≤ c.count ∧ t ≤ c.last ∧ ∀ e ∈ es, t ≤ e.time)) :
    ((k + es.countP (Try.inPeriod period t) : ℕ) : Int) ≤ limit := by
  induction es generalizing c k with
  | nil => simpa using hk
  | cons e es ih =>
    cases h with
    | @cons _ c' _ _ hstep hrest =>
      obtain ⟨hnext, hsorted'⟩ := List.pairwise_cons.mp hsorted
      -- if the last failure is long ago, an attempt in the period means that it has ended
      have hended : period ≤ e.time - c.last → k = 0 ∨ t + period ≤ e.time := by
        intro hlong
        rcases hcounted with hzero | ⟨-, hlast, -⟩
        · exact .inl hzero
        · exact .inr (by omega)
      have hafter : t + period ≤ e.time →
          ((k + (e :: es).countP (Try.inPeriod period t) : ℕ) : Int) ≤ limit := by
        intro hover
        rw [countP_inPeriod_eq_zero, Nat.add_zero]
        · exact hk
        · intro e' he'
          rcases List.mem_cons.mp he' with rfl | he'
          · exact hover
          · exact hover.trans (hnext e' he')
      have hrestTimes : t ≤ e.time → ∀ e' ∈ es, t ≤ e'.time := fun ht e' he' =>
        ht.trans (hnext e' he')
      -- a request that is no attempt in the period is not counted
      have hskip : e.inPeriod period t = false →
          (k = 0 ∨ ((k : Int) ≤ c'.count ∧ t ≤ c'.last ∧ ∀ e ∈ es, t ≤ e.time)) →
          ((k + (e :: es).countP (Try.inPeriod period t) : ℕ) : Int) ≤ limit := by
        intro hno hcounted'
        rw [List.countP_cons_of_neg (by simp [hno])]
        exact ih hrest hsorted' hk hcounted'
      -- an attempt in the period is counted, and is in the counter from now on
      have htake : t ≤ e.time → (k : Int) + 1 ≤ limit → (k : Int) + 1 ≤ c'.count →
          e.time ≤ c'.last → e.attempt = true →
          ((k + (e :: es).countP (Try.inPeriod period t) : ℕ) : Int) ≤ limit := by
        intro ht hlim hcount hlast hattempt
        by_cases hover : t + period ≤ e.time
        · exact hafter hover
        · have hin : e.inPeriod period t = true := by
            simp only [Try.inPeriod, hattempt, Bool.true_and, Bool.and_eq_true, decide_eq_true_eq]
            omega
          have hnew := ih (k := k + 1) hrest hsorted' (by omega)
            (.inr ⟨by omega, by omega, hrestTimes ht⟩)
          rw [List.countP_cons_of_pos hin]
          omega
      generalize hattempt : e.attempt = attempt at hstep
      cases hstep with
      | raised hcount hlast =>
        refine hskip (by simp [Try.inPeriod, hattempt]) ?_
        rcases hcounted with hzero | ⟨hle, hlast', htimes⟩
        · exact .inl hzero
        · have ht := htimes e List.mem_cons_self
          exact .inr ⟨by omega, by omega, hrestTimes ht⟩
      | expired hlong =>
        rcases hended hlong with hzero | hover
        · exact hskip (by simp [Try.inPeriod, hattempt]) (.inl hzero)
        · exact hafter hover
      | attempt hbelow hcount hpos hlast =>
        by_cases ht : t ≤ e.time
        · rcases hcounted with rfl | ⟨hle, -, -⟩
          · exact htake ht (by omega) (by omega) hlast hattempt
          · exact htake ht (by omega) (by omega) hlast hattempt
        · refine hskip (by simp [Try.inPeriod, ht]) ?_
          rcases hcounted with hzero | ⟨-, -, htimes⟩
          · exact .inl hzero
          · exact absurd (htimes e List.mem_cons_self) ht
      | attemptLater hlong hcount hlast =>
        rcases hended hlong with rfl | hover
        · by_cases ht : t ≤ e.time
          · exact htake ht (by omega) (by omega) hlast hattempt
          · exact hskip (by simp [Try.inPeriod, ht]) (.inl rfl)
        · exact hafter hover

/-- **No more attempts than the limit** are let through in a time shorter than the period. -/
theorem Steps.count_le (hlimit : 1 ≤ limit) {es : List Try} {c : Counter}
    (h : Steps limit period c es) (hsorted : es.Pairwise fun e e' => e.time ≤ e'.time) (t : Int) :
    (es.countP (Try.inPeriod period t) : Int) ≤ limit := by
  have hle := h.add_count_le hlimit hsorted (t := t) (k := 0) (by omega) (.inl rfl)
  rwa [Nat.zero_add] at hle

end Veda.Lib.Lockout
