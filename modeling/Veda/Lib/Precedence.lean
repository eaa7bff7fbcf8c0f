import Mathlib.Algebra.BigOperators.Group.List.Basic
import Mathlib.Algebra.GroupWithZero.Nat
import Mathlib.Algebra.Order.Group.Int
import Mathlib.Data.Int.Order.Basic
import Mathlib.Data.List.Basic

set_option autoImplicit false

/-!
# Operator precedence on two stacks

A formula is written down as a list of tokens. A machine with a stack of operands and a stack of
operators reads the tokens from left to right: an operand is pushed, an operator first applies the
operators above it that bind at least as tightly, a closing parenthesis applies everything down to
its opening one, and the end applies what is left.

## Main definitions

* `Lib.Precedence.Formula` — formulas as they are written, with their parentheses.
* `Lib.Precedence.Formula.WellParen` — the parentheses that a table of levels asks for are
  written.
* `Lib.Precedence.Ordered` — which tokens can follow each other.
* `Lib.Precedence.Machine` — the machine, with its own priorities and its own effect of an
  operator on the operands.
* `Lib.Precedence.Weighing` — weights of operands and operators that applying an operator
  cannot increase.

## Main results

* `Lib.Precedence.reduceTo_feedAll` — where the machine treats the operators of a formula as
  the table says, reading the formula comes down to pushing its value.
* `Lib.Precedence.total_feedAll_le` — reading tokens increases the total weight by at most the
  weight of the tokens.
* `Lib.Precedence.operand_value` — the weight of a value is the weight of its tokens.
-/

namespace Veda.Lib.Precedence

/-- A token of a formula. -/
inductive Token (α ω : Type*)
  | operand (a : α)
  | operator (o : ω)
  | opening
  | closing
  deriving DecidableEq

/-- A formula as it is written. -/
inductive Formula (α ω : Type*)
  | operand (a : α)
  | paren (e : Formula α ω)
  | binary (o : ω) (l r : Formula α ω)

variable {α ω β σ : Type*}

namespace Formula

/-- The tokens of a formula from left to right. -/
def tokens : Formula α ω → List (Token α ω)
  | operand a => [.operand a]
  | paren e => .opening :: (e.tokens ++ [.closing])
  | binary o l r => l.tokens ++ .operator o :: r.tokens

/-- What a formula means, given the meaning of operands and operators. -/
def value (leaf : α → β) (node : ω → β → β → β) : Formula α ω → β
  | operand a => leaf a
  | paren e => e.value leaf node
  | binary o l r => node o (l.value leaf node) (r.value leaf node)

/-- The operators of a formula from left to right. -/
def operators : Formula α ω → List ω
  | operand _ => []
  | paren e => e.operators
  | binary o l r => l.operators ++ o :: r.operators

/-- The outermost operator of a formula, if it is outside parentheses, has at least this level. -/
def BindsAt (level : ω → ℤ) (k : ℤ) : Formula α ω → Prop
  | binary o _ _ => k ≤ level o
  | _ => True

/-- The parentheses that the levels ask for are written; operators of one level are read from left
to right. -/
def WellParen (level : ω → ℤ) : Formula α ω → Prop
  | operand _ => True
  | paren e => e.WellParen level
  | binary o l r => l.WellParen level ∧ r.WellParen level ∧
      l.BindsAt level (level o) ∧ r.BindsAt level (level o + 1)

instance decidableBindsAt (level : ω → ℤ) (k : ℤ) :
    (e : Formula α ω) → Decidable (e.BindsAt level k)
  | operand _ => .isTrue trivial
  | paren _ => .isTrue trivial
  | binary o _ _ => inferInstanceAs (Decidable (k ≤ level o))

instance decidableWellParen (level : ω → ℤ) :
    (e : Formula α ω) → Decidable (e.WellParen level)
  | operand _ => .isTrue trivial
  | paren e => decidableWellParen level e
  | binary o l r =>
    have := decidableWellParen level l
    have := decidableWellParen level r
    inferInstanceAs (Decidable (l.WellParen level ∧ r.WellParen level ∧
      l.BindsAt level (level o) ∧ r.BindsAt level (level o + 1)))

theorem BindsAt.mono {level : ω → ℤ} {k k' : ℤ} {e : Formula α ω} (h : e.BindsAt level k')
    (hk : k ≤ k') : e.BindsAt level k := by
  cases e with
  | operand a => trivial
  | paren e => trivial
  | binary o l r => exact hk.trans h

end Formula

/-! ## The order of tokens -/

/-- A formula can start with this token. -/
def Token.starts : Token α ω → Bool
  | operand _ | opening => true
  | operator _ | closing => false

/-- A formula can end with this token. -/
def Token.ends : Token α ω → Bool
  | operand _ | closing => true
  | operator _ | opening => false

/-- A token with which a formula can end is followed by an operator, a closing parenthesis or
nothing, any other token by one with which a formula can start. -/
def Ordered : List (Token α ω) → Prop
  | [] => True
  | [t] => t.ends = true
  | t :: t' :: ts => t.ends = !t'.starts ∧ Ordered (t' :: ts)

theorem Ordered.tail {t : Token α ω} {ts : List (Token α ω)} (h : Ordered (t :: ts)) :
    Ordered ts := by
  cases ts with
  | nil => trivial
  | cons t' ts => exact h.2

theorem Ordered.append {ts us : List (Token α ω)} {u : Token α ω} (hts : Ordered ts)
    (hu : u.starts = false) (hus : Ordered (u :: us)) : Ordered (ts ++ u :: us) := by
  induction ts with
  | nil => exact hus
  | cons t ts ih =>
    have htail := ih hts.tail
    cases ts with
    | nil => exact ⟨hts.trans (congrArg not hu).symm, htail⟩
    | cons t' ts => exact ⟨hts.1, htail⟩

theorem Formula.exists_tokens (e : Formula α ω) :
    ∃ t ts, e.tokens = t :: ts ∧ t.starts = true := by
  induction e with
  | operand a => exact ⟨_, _, rfl, rfl⟩
  | paren e ih => exact ⟨_, _, rfl, rfl⟩
  | binary o l r ihl ihr =>
    obtain ⟨t, ts, htokens, ht⟩ := ihl
    exact ⟨t, ts ++ .operator o :: r.tokens, congrArg (· ++ _) htokens, ht⟩

theorem Formula.ordered_tokens (e : Formula α ω) : Ordered e.tokens := by
  induction e with
  | operand a => rfl
  | paren e ih =>
    obtain ⟨t, ts, htokens, ht⟩ := e.exists_tokens
    rw [htokens] at ih
    rw [tokens, htokens]
    exact ⟨(congrArg not ht).symm, ih.append rfl rfl⟩
  | binary o l r ihl ihr =>
    obtain ⟨t, ts, htokens, ht⟩ := r.exists_tokens
    refine ihl.append rfl ?_
    rw [htokens] at ihr ⊢
    exact ⟨(congrArg not ht).symm, ihr⟩

/-- A machine that reads formulas: operands are read by `leaf` and stand on a stack of values,
operators are kept under their name, `opening` is the name under which an opening parenthesis is
kept, and `apply` is what an operator does to the stack of values. -/
structure Machine (α ω β σ : Type*) where
  leaf : α → β
  name : ω → σ
  opening : σ
  priority : σ → ℤ
  apply : List β → σ → List β

namespace Machine

variable (m : Machine α ω β σ)

/-- The operators on top of the stack that have at least this priority are applied. -/
def reduceTo (k : ℤ) (st : List β) : List σ → List β × List σ
  | [] => (st, [])
  | o :: ops => if m.priority o < k then (st, o :: ops) else reduceTo k (m.apply st o) ops

/-- The operators down to the last opening parenthesis are applied, which is taken away. -/
def close [DecidableEq σ] (st : List β) : List σ → List β × List σ
  | [] => (st, [])
  | o :: ops => if o = m.opening then (st, ops) else close (m.apply st o) ops

/-- All operators are applied. -/
def finish (st : List β) (ops : List σ) : List β := ops.foldl m.apply st

/-- One token is read. -/
def feed [DecidableEq σ] : List β × List σ → Token α ω → List β × List σ
  | (st, ops), .operand a => (m.leaf a :: st, ops)
  | (st, ops), .operator o =>
    let reduced := m.reduceTo (m.priority (m.name o)) st ops
    (reduced.1, m.name o :: reduced.2)
  | (st, ops), .opening => (st, m.opening :: ops)
  | (st, ops), .closing => m.close st ops

/-- Tokens are read from left to right. -/
def feedAll [DecidableEq σ] (tokens : List (Token α ω)) (s : List β × List σ) :
    List β × List σ := tokens.foldl m.feed s

/-- The machine treats an operator as the levels and the meaning of operators say. -/
structure Regular (level : ω → ℤ) (node : ω → β → β → β) (o : ω) : Prop where
  priority : m.priority (m.name o) = level o
  opening : m.priority m.opening < level o
  apply : ∀ st l r, m.apply (r :: l :: st) (m.name o) = node o l r :: st

end Machine

section Reading

variable {m : Machine α ω β σ} {k k' : ℤ} {st : List β} {ops : List σ}

theorem reduceTo_of_lt (h : ∀ top ∈ ops.head?, m.priority top < k) :
    m.reduceTo k st ops = (st, ops) := by
  cases ops with
  | nil => rfl
  | cons o ops => exact if_pos (h o rfl)

theorem reduceTo_cons_of_le {o : σ} (h : k ≤ m.priority o) :
    m.reduceTo k st (o :: ops) = m.reduceTo k (m.apply st o) ops := by
  rw [Machine.reduceTo, if_neg h.not_gt]

theorem finish_reduceTo :
    m.finish (m.reduceTo k st ops).1 (m.reduceTo k st ops).2 = m.finish st ops := by
  induction ops generalizing st with
  | nil => rfl
  | cons o ops ih =>
    by_cases ho : m.priority o < k
    · rw [reduceTo_of_lt fun top htop => Option.some.inj htop ▸ ho]
    · rw [reduceTo_cons_of_le (le_of_not_gt ho), ih]
      rfl

variable [DecidableEq σ]

theorem close_reduceTo (hk : m.priority m.opening < k) :
    m.close (m.reduceTo k st ops).1 (m.reduceTo k st ops).2 = m.close st ops := by
  induction ops generalizing st with
  | nil => rfl
  | cons o ops ih =>
    by_cases ho : m.priority o < k
    · rw [reduceTo_of_lt fun top htop => Option.some.inj htop ▸ ho]
    · have hne : o ≠ m.opening := by
        rintro rfl
        exact ho hk
      rw [reduceTo_cons_of_le (le_of_not_gt ho), ih, Machine.close, if_neg hne]

theorem close_of_reduceTo {s : List β × List σ} {b : β}
    (hread : m.reduceTo (m.priority m.opening + 1) s.1 s.2 =
      m.reduceTo (m.priority m.opening + 1) (b :: st) (m.opening :: ops)) :
    m.close s.1 s.2 = (b :: st, ops) := by
  rw [← close_reduceTo (Int.lt_succ _), hread, close_reduceTo (Int.lt_succ _), Machine.close,
    if_pos rfl]

theorem feedAll_append (ts ts' : List (Token α ω)) (s : List β × List σ) :
    m.feedAll (ts ++ ts') s = m.feedAll ts' (m.feedAll ts s) := List.foldl_append

theorem feedAll_cons (t : Token α ω) (ts : List (Token α ω)) (s : List β × List σ) :
    m.feedAll (t :: ts) s = m.feedAll ts (m.feed s t) := rfl

theorem feedAll_paren (e : Formula α ω) (st : List β) (ops : List σ) :
    m.feedAll (Formula.paren e).tokens (st, ops) =
      m.close (m.feedAll e.tokens (st, m.opening :: ops)).1
        (m.feedAll e.tokens (st, m.opening :: ops)).2 := by
  rw [Formula.tokens, feedAll_cons, feedAll_append]
  rfl

theorem feedAll_binary (o : ω) (l r : Formula α ω) (s : List β × List σ) :
    m.feedAll (Formula.binary o l r).tokens s =
      m.feedAll r.tokens (m.feed (m.feedAll l.tokens s) (.operator o)) := by
  rw [Formula.tokens, feedAll_append, feedAll_cons]

omit [DecidableEq σ] in
theorem bindsAt_opening {level : ω → ℤ} {node : ω → β → β → β} {e : Formula α ω}
    (hregular : ∀ o ∈ e.operators, m.Regular level node o) :
    e.BindsAt level (m.priority m.opening + 1) := by
  cases e with
  | operand a => trivial
  | paren e => trivial
  | binary o l r => exact (hregular o (by simp [Formula.operators])).opening

theorem reduceTo_feedAll {level : ω → ℤ} {node : ω → β → β → β} {e : Formula α ω}
    (hregular : ∀ o ∈ e.operators, m.Regular level node o) (hparen : e.WellParen level)
    (hops : ∀ top ∈ ops.head?, e.BindsAt level (m.priority top + 1)) (hk : e.BindsAt level k) :
    m.reduceTo k (m.feedAll e.tokens (st, ops)).1 (m.feedAll e.tokens (st, ops)).2 =
      m.reduceTo k (e.value m.leaf node :: st) ops := by
  induction e generalizing st ops k with
  | operand a => rfl
  | paren e ih =>
    -- Inside, the opening parenthesis is on top, and it binds more loosely than any operator.
    have hinner : e.BindsAt level (m.priority m.opening + 1) := bindsAt_opening hregular
    have hopening : ∀ top ∈ (m.opening :: ops).head?, e.BindsAt level (m.priority top + 1) :=
      fun top htop => Option.some.inj htop ▸ hinner
    rw [feedAll_paren, close_of_reduceTo (ih hregular hparen hopening hinner)]
    rfl
  | binary o l r ihl ihr =>
    obtain ⟨hl, hr, hlevel, hright⟩ := hparen
    have ho : m.Regular level node o := hregular o (by simp [Formula.operators])
    have hleft : m.reduceTo (m.priority (m.name o)) (m.feedAll l.tokens (st, ops)).1
        (m.feedAll l.tokens (st, ops)).2 = (l.value m.leaf node :: st, ops) := by
      rw [ho.priority, ihl (fun o' h' => hregular o' (List.mem_append_left _ h')) hl
        (fun top htop => hlevel.mono (hops top htop)) hlevel]
      exact reduceTo_of_lt fun top htop => hops top htop
    have hoperator : m.feed (m.feedAll l.tokens (st, ops)) (.operator o) =
        (l.value m.leaf node :: st, m.name o :: ops) := by
      rw [Machine.feed, hleft]
    have hname : k ≤ m.priority (m.name o) := ho.priority ▸ hk
    have htop : ∀ top ∈ (m.name o :: ops).head?, r.BindsAt level (m.priority top + 1) := by
      intro top htop
      obtain rfl : m.name o = top := Option.some.inj htop
      rw [ho.priority]
      exact hright
    rw [feedAll_binary, hoperator,
      ihr (fun o' h' => hregular o' (List.mem_append_right _ (List.mem_cons_of_mem _ h'))) hr htop
        (hright.mono (hk.trans (Int.le_of_lt (Int.lt_succ _)))),
      reduceTo_cons_of_le hname, ho.apply]
    rfl

theorem reduceTo_feedAll_of_lt {level : ω → ℤ} {node : ω → β → β → β} {e : Formula α ω}
    (hregular : ∀ o ∈ e.operators, m.Regular level node o) (hparen : e.WellParen level)
    (hops : ∀ top ∈ ops.head?, m.priority top < k) (hk : e.BindsAt level k) :
    m.reduceTo k (m.feedAll e.tokens (st, ops)).1 (m.feedAll e.tokens (st, ops)).2 =
      (e.value m.leaf node :: st, ops) := by
  rw [reduceTo_feedAll hregular hparen (fun top htop => hk.mono (hops top htop)) hk]
  exact reduceTo_of_lt hops

theorem feedAll_paren_eq {level : ω → ℤ} {node : ω → β → β → β} {e : Formula α ω}
    (hregular : ∀ o ∈ e.operators, m.Regular level node o) (hparen : e.WellParen level) :
    m.feedAll (Formula.paren e).tokens (st, ops) = (e.value m.leaf node :: st, ops) := by
  have hinner := bindsAt_opening hregular
  have hopening : ∀ top ∈ (m.opening :: ops).head?, e.BindsAt level (m.priority top + 1) :=
    fun top htop => Option.some.inj htop ▸ hinner
  rw [feedAll_paren]
  exact close_of_reduceTo (reduceTo_feedAll hregular hparen hopening hinner)

theorem finish_feedAll {level : ω → ℤ} {node : ω → β → β → β} {e : Formula α ω}
    (hregular : ∀ o ∈ e.operators, m.Regular level node o) (hparen : e.WellParen level) :
    m.finish (m.feedAll e.tokens ([], [])).1 (m.feedAll e.tokens ([], [])).2 =
      [e.value m.leaf node] := by
  obtain ⟨k, hk⟩ : ∃ k, e.BindsAt level k := by
    cases e with
    | operand a => exact ⟨0, trivial⟩
    | paren e => exact ⟨0, trivial⟩
    | binary o l r => exact ⟨level o, le_refl _⟩
  rw [← finish_reduceTo, reduceTo_feedAll hregular hparen (fun top htop => by cases htop) hk]
  rfl

end Reading

/-! ## Weights -/

/-- Weights of values and of kept operators, such that applying an operator creates no weight. -/
structure Weighing (m : Machine α ω β σ) where
  operand : β → ℕ
  operator : σ → ℕ
  apply_le : ∀ st o, ((m.apply st o).map operand).sum ≤ (st.map operand).sum + operator o

namespace Weighing

variable {m : Machine α ω β σ} (w : Weighing m)

/-- The weight of what is on the stacks. -/
def total (st : List β) (ops : List σ) : ℕ := (st.map w.operand).sum + (ops.map w.operator).sum

/-- The weight that a token brings. -/
def token : Token α ω → ℕ
  | .operand a => w.operand (m.leaf a)
  | .operator o => w.operator (m.name o)
  | .opening => w.operator m.opening
  | .closing => 0

@[simp] theorem total_nil : w.total [] [] = 0 := rfl

theorem total_of_nil (st : List β) : w.total st [] = (st.map w.operand).sum := Nat.add_zero _

theorem total_cons (b : β) (st : List β) (ops : List σ) :
    w.total (b :: st) ops = w.operand b + w.total st ops := by
  rw [total, total, List.map_cons, List.sum_cons, Nat.add_assoc]

theorem total_operator (o : σ) (st : List β) (ops : List σ) :
    w.total st (o :: ops) = w.operator o + w.total st ops := by
  rw [total, total, List.map_cons, List.sum_cons]
  omega

theorem total_apply_le (o : σ) (st : List β) (ops : List σ) :
    w.total (m.apply st o) ops ≤ w.total st (o :: ops) := by
  have := w.apply_le st o
  rw [total, total, List.map_cons, List.sum_cons]
  omega

theorem total_reduceTo_le (k : ℤ) (st : List β) (ops : List σ) :
    w.total (m.reduceTo k st ops).1 (m.reduceTo k st ops).2 ≤ w.total st ops := by
  induction ops generalizing st with
  | nil => exact le_rfl
  | cons o ops ih =>
    by_cases ho : m.priority o < k
    · rw [reduceTo_of_lt fun top htop => Option.some.inj htop ▸ ho]
    · rw [reduceTo_cons_of_le (le_of_not_gt ho)]
      exact (ih _).trans (w.total_apply_le o st ops)

theorem sum_finish_le (st : List β) (ops : List σ) :
    ((m.finish st ops).map w.operand).sum ≤ w.total st ops := by
  induction ops generalizing st with
  | nil => exact le_of_eq (Nat.add_zero _).symm
  | cons o ops ih => exact (ih _).trans (w.total_apply_le o st ops)

variable [DecidableEq σ]

theorem total_close_le (st : List β) (ops : List σ) :
    w.total (m.close st ops).1 (m.close st ops).2 ≤ w.total st ops := by
  induction ops generalizing st with
  | nil => exact le_rfl
  | cons o ops ih =>
    rw [Machine.close]
    by_cases ho : o = m.opening
    · rw [if_pos ho, total_operator]
      exact Nat.le_add_left _ _
    · rw [if_neg ho]
      exact (ih _).trans (w.total_apply_le o st ops)

theorem total_feed_le (s : List β × List σ) (t : Token α ω) :
    w.total (m.feed s t).1 (m.feed s t).2 ≤ w.total s.1 s.2 + w.token t := by
  obtain ⟨st, ops⟩ := s
  cases t with
  | operand a => exact (w.total_cons _ _ _).le.trans (Nat.add_comm _ _).le
  | operator o =>
    have := w.total_reduceTo_le (m.priority (m.name o)) st ops
    simp only [Machine.feed, total_operator, token]
    omega
  | opening => exact (w.total_operator _ _ _).le.trans (Nat.add_comm _ _).le
  | closing => exact w.total_close_le st ops

theorem total_feedAll_le (ts : List (Token α ω)) (s : List β × List σ) :
    w.total (m.feedAll ts s).1 (m.feedAll ts s).2 ≤ w.total s.1 s.2 + (ts.map w.token).sum := by
  induction ts generalizing s with
  | nil => exact le_rfl
  | cons t ts ih =>
    rw [feedAll_cons, List.map_cons, List.sum_cons]
    have := ih (m.feed s t)
    have := w.total_feed_le s t
    omega

omit [DecidableEq σ] in
theorem operand_value {node : ω → β → β → β} (hopening : w.operator m.opening = 0)
    (hnode : ∀ o l r, w.operand (node o l r) =
      w.operator (m.name o) + w.operand l + w.operand r) (e : Formula α ω) :
    w.operand (e.value m.leaf node) = (e.tokens.map w.token).sum := by
  induction e with
  | operand a => rfl
  | paren e ih =>
    rw [Formula.value, ih, Formula.tokens, List.map_cons, List.sum_cons, List.map_append,
      List.sum_append, token, hopening, Nat.zero_add]
    rfl
  | binary o l r ihl ihr =>
    rw [Formula.value, hnode, ihl, ihr, Formula.tokens, List.map_append, List.sum_append,
      List.map_cons, List.sum_cons, token]
    omega

end Weighing

end Veda.Lib.Precedence
