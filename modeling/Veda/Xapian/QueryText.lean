import Veda.Lib.Precedence
import Veda.Xapian.Vql

set_option autoImplicit false

/-!
# Query strings and what they mean

An expression is built from operands with operators of two operands. It can be written down in many
ways: with any parentheses besides the ones that the levels of the operators ask for, and with any
white space between the tokens.

The parser is the precedence machine of `Lib.Precedence` with a table of its own. The table has
no entry for `>=`, which therefore binds as loosely as an opening parenthesis: it is pushed only
after everything before it has been processed, the opening parentheses included, and each of these
takes two operands away.

## Main definitions

* `Xapian.Expr`, `Xapian.Expr.tree` — expressions and their trees.
* `Xapian.Printing` — the ways of writing an expression down.
* `Xapian.vqlMachine` — the machine that the parser is.
* `Xapian.GeFits` — no other operator has a `>=` among its operands, and none is in
  parentheses.
* `Xapian.treeWeighing` — weights of trees, with which what is lost can be counted.

## Main results

* `Xapian.processAll_tokens_iff` — the tokens of a formula are read as the formula exactly if
  its `>=` fit.
-/

namespace Veda.Xapian

open Veda.Lib (utf8)
open Veda.Lib.Precedence

/-! ## Expressions -/

/-- The operators of query strings. -/
inductive Op
  | equal
  | inSubclasses
  | notEqual
  | fullText
  | fullTextPlus
  | less
  | greater
  | lessEqual
  | greaterEqual
  | and
  | or
  deriving DecidableEq

/-- How an operator is written. -/
def Op.text : Op → String
  | equal => "=="
  | inSubclasses => "==="
  | notEqual => "!="
  | fullText => "=*"
  | fullTextPlus => "=+"
  | less => "<"
  | greater => ">"
  | lessEqual => "<="
  | greaterEqual => ">="
  | and => "&&"
  | or => "||"

/-- How tightly an operator binds: comparisons tighter than `&&`, and `&&` tighter than `||`. -/
def Op.level : Op → ℤ
  | less | greater | lessEqual | greaterEqual => 4
  | equal | inSubclasses | notEqual | fullText | fullTextPlus => 3
  | and => 2
  | or => 1

/-- The characters of an operand without quotes: letters of any script, digits, `:`, `_`
and `.`. -/
def wordChar (c : Char) : Bool := c.isAlphanum || c = ':' || c = '_' || c = '.' || 127 < c.val

/-- A text that can stand without quotes. -/
def isWord (text : String) : Bool := text ≠ "" && text.toList.all wordChar

/-- The two kinds of quotes. -/
inductive Quote
  | single
  | back
  deriving DecidableEq

/-- The character of a quote. -/
def Quote.char : Quote → Char
  | single => '\''
  | back => '`'

/-- An operand as it is written. -/
inductive Operand
  | word (text : String) (word : isWord text = true)
  | quoted (quote : Quote) (text : String) (closed : quote.char ∉ text.toList)
  | range (text : String) (closed : ']' ∉ text.toList)

/-- How an operand is written. -/
def Operand.text : Operand → String
  | word text _ => text
  | quoted quote text _ => quote.char.toString ++ text ++ quote.char.toString
  | range text _ => "[" ++ text ++ "]"

/-- The tree of an operand keeps its text and its decoration. -/
def Operand.tree : Operand → TTA
  | word text _ => .new text none none .none
  | quoted _ text _ => .new text none none .quoted
  | range text _ => .new text none none .range

/-- The tree of an operator and its operands. -/
def opTree (o : Op) (l r : TTA) : TTA := .new o.text (some l) (some r) .none

/-- An expression. -/
inductive Expr
  | operand (a : Operand)
  | binary (o : Op) (l r : Expr)

/-- The tree of an expression. -/
def Expr.tree : Expr → TTA
  | operand a => a.tree
  | binary o l r => opTree o l.tree r.tree

/-! ## Ways of writing -/

/-- A character of white space. -/
inductive Blank
  | space
  | tab
  | carriageReturn
  | lineFeed
  deriving DecidableEq

/-- The character itself. -/
def Blank.char : Blank → Char
  | space => ' '
  | tab => '\t'
  | carriageReturn => '\r'
  | lineFeed => '\n'

/-- The text of some white space. -/
def gapText (gap : List Blank) : String := String.ofList (gap.map Blank.char)

/-- How a token is written. -/
def tokenText : Token Operand Op → String
  | .operand a => a.text
  | .operator o => o.text
  | .opening => "("
  | .closing => ")"

/-- Tokens, each with the white space before it, and white space at the end. -/
def itemsText : List (List Blank × Token Operand Op) → List Blank → String
  | [], trailing => gapText trailing
  | (gap, t) :: items, trailing => gapText gap ++ (tokenText t ++ itemsText items trailing)

/-- A way of writing an expression: the parentheses that are needed and any others, and any white
space before each token and at the end. -/
structure Printing (e : Expr) where
  formula : Formula Operand Op
  value : formula.value Expr.operand Expr.binary = e
  wellParen : formula.WellParen Op.level
  items : List (List Blank × Token Operand Op)
  tokens : items.map Prod.snd = formula.tokens
  trailing : List Blank

/-- The query string. -/
def Printing.text {e : Expr} (p : Printing e) : String := itemsText p.items p.trailing

theorem value_tree (f : Formula Operand Op) :
    f.value Operand.tree opTree = (f.value Expr.operand Expr.binary).tree := by
  induction f with
  | operand a => rfl
  | paren f ih => exact ih
  | binary o l r ihl ihr => exact congrArg₂ (opTree o) ihl ihr

/-! ## The machine -/

/-- The machine that the parser is. -/
def vqlMachine : Machine Operand Op TTA String where
  leaf := Operand.tree
  name := Op.text
  opening := "("
  priority := priority
  apply := processOp

theorem closeParen_eq (st : List TTA) (op : List String) :
    closeParen st op = vqlMachine.close st op := by
  induction op generalizing st with
  | nil => rfl
  | cons last op ih =>
    rw [closeParen, Machine.close, ih]
    rfl

theorem popOps_eq (curOp : String) (st : List TTA) (op : List String) :
    popOps curOp st op = vqlMachine.reduceTo (priority curOp) st op := by
  induction op generalizing st with
  | nil => rfl
  | cons last op ih =>
    rw [popOps, Machine.reduceTo, ih]
    rfl

theorem regular_of_ne {o : Op} (ho : o ≠ .greaterEqual) :
    vqlMachine.Regular Op.level opTree o := by
  cases o with
  | greaterEqual => exact absurd rfl ho
  | _ => exact ⟨by decide, by decide, fun _ _ _ => rfl⟩

theorem neg_one_le_priority (op : String) : -1 ≤ priority op := by
  unfold priority
  split_ifs <;> decide

theorem priority_greaterEqual : priority (Op.text .greaterEqual) = -1 := by decide

/-- The operators `>=` of a formula are its outermost operators, outside all parentheses and each
after the other. -/
def GeFits : Formula Operand Op → Prop
  | .operand _ => True
  | .paren f => Op.greaterEqual ∉ f.operators
  | .binary o l r => Op.greaterEqual ∉ r.operators ∧
      if o = .greaterEqual then GeFits l else Op.greaterEqual ∉ l.operators

/-- No operator `>=` of a formula is in parentheses. -/
def GeOutside : Formula Operand Op → Prop
  | .operand _ => True
  | .paren f => Op.greaterEqual ∉ f.operators
  | .binary _ l r => GeOutside l ∧ GeOutside r

theorem GeFits.of_notMem {f : Formula Operand Op} (h : Op.greaterEqual ∉ f.operators) :
    GeFits f := by
  cases f with
  | operand a => trivial
  | paren f => exact h
  | binary o l r =>
    have ho : o ≠ .greaterEqual := by
      rintro rfl
      exact h (List.mem_append_right _ List.mem_cons_self)
    refine ⟨fun hr => h (List.mem_append_right _ (List.mem_cons_of_mem _ hr)), ?_⟩
    rw [if_neg ho]
    exact fun hl => h (List.mem_append_left _ hl)

/-! ## Weights -/

/-- Operands that a query string can have. -/
def properOperand : Decor → String → Bool
  | .none, text => isWord text
  | _, _ => true

/-- The weight of a tree: the weight of its operators and of those of its leaves that are proper
operands. -/
def TTA.weight (leaf operator : String → ℕ) : TTA → ℕ
  | .new op none none decor => if properOperand decor op then leaf op else 0
  | .new op (some l) none _ => operator op + l.weight leaf operator
  | .new op none (some r) _ => operator op + r.weight leaf operator
  | .new op (some l) (some r) _ => operator op + l.weight leaf operator + r.weight leaf operator

/-- Weights of operands and operators make weights of trees that no operator increases. -/
def treeWeighing (leaf operator : String → ℕ) : Weighing vqlMachine where
  operand := TTA.weight leaf operator
  operator := operator
  apply_le := by
    intro st op
    have hop : op ∈ binaryOps → isWord op = false := by
      have hall : ∀ op ∈ binaryOps, isWord op = false := by decide
      exact hall op
    change ((processOp st op).map (TTA.weight leaf operator)).sum ≤ _
    unfold processOp
    by_cases hmem : op ∈ binaryOps
    · simp only [if_pos hmem]
      match st with
      | [] => simp [TTA.weight, properOperand, hop hmem]
      | [r] => simp [TTA.weight, Nat.add_comm]
      | r :: l :: st =>
        simp only [List.head?_cons, List.tail_cons, List.map_cons, List.sum_cons, TTA.weight]
        omega
    · simp only [if_neg hmem]
      match st with
      | [] => simp
      | [r] => simp
      | r :: l :: st =>
        simp only [List.tail_cons, List.map_cons, List.sum_cons]
        omega

@[simp] theorem treeWeighing_operand (leaf operator : String → ℕ) (t : TTA) :
    (treeWeighing leaf operator).operand t = t.weight leaf operator := rfl

theorem weight_value {leaf operator : String → ℕ} (hopening : operator "(" = 0)
    (f : Formula Operand Op) :
    (f.value Operand.tree opTree).weight leaf operator =
      (f.tokens.map (treeWeighing leaf operator).token).sum := by
  refine (treeWeighing leaf operator).operand_value hopening (fun o l r => ?_) f
  rw [opTree, treeWeighing_operand, TTA.weight]
  rfl

/-! ## Formulas whose `>=` fit -/

section Reading

variable {f l r : Formula Operand Op} {st : List TTA} {ops : List String}

theorem regular_of_notMem (h : Op.greaterEqual ∉ f.operators) :
    ∀ o ∈ f.operators, vqlMachine.Regular Op.level opTree o :=
  fun _ ho => regular_of_ne fun heq => h (heq ▸ ho)

theorem bindsAt_zero (f : Formula Operand Op) : f.BindsAt Op.level 0 := by
  cases f with
  | operand a => trivial
  | paren f => trivial
  | binary o l r =>
    have hlevel : ∀ o : Op, 0 ≤ o.level := by
      intro o
      cases o <;> decide
    exact hlevel o

theorem reduceTo_neg_one (st : List TTA) (ops : List String) :
    vqlMachine.reduceTo (-1) st ops = (processAll st ops, []) := by
  induction ops generalizing st with
  | nil => rfl
  | cons o ops ih =>
    rw [reduceTo_cons_of_le (m := vqlMachine) (neg_one_le_priority o), ih]
    rfl

theorem feed_greaterEqual (st : List TTA) (ops : List String) :
    vqlMachine.feed (st, ops) (.operator .greaterEqual) = (processAll st ops, [">="]) := by
  have hpriority : vqlMachine.priority (vqlMachine.name .greaterEqual) = -1 :=
    priority_greaterEqual
  simp only [Machine.feed, hpriority, reduceTo_neg_one]
  rfl

theorem getLast_feed_greaterEqual (s : List TTA × List String) :
    (vqlMachine.feed s (.operator .greaterEqual)).2.getLast? = some ">=" := by
  obtain ⟨st, ops⟩ := s
  rw [feed_greaterEqual]
  rfl

/-- The stack of trees after all tokens of a formula. -/
def processTokens (f : Formula Operand Op) : List TTA :=
  processAll (vqlMachine.feedAll f.tokens ([], [])).1 (vqlMachine.feedAll f.tokens ([], [])).2

theorem processTokens_greaterEqual (hr : Op.greaterEqual ∉ r.operators)
    (hparen : r.WellParen Op.level) :
    processTokens (.binary .greaterEqual l r) =
      .new ">=" (processTokens l).head? (some (r.value Operand.tree opTree)) .none ::
        (processTokens l).tail := by
  have htop : ∀ top ∈ [">="].head?, r.BindsAt Op.level (vqlMachine.priority top + 1) := by
    rintro top htop
    cases htop
    exact bindsAt_opening (regular_of_notMem hr)
  have hread : vqlMachine.feedAll (Formula.binary Op.greaterEqual l r).tokens ([], []) =
      vqlMachine.feedAll r.tokens (processTokens l, [">="]) := by
    rw [feedAll_binary, feed_greaterEqual]
    rfl
  rw [processTokens, hread]
  change vqlMachine.finish _ _ = _
  rw [← finish_reduceTo, reduceTo_feedAll (regular_of_notMem hr) hparen htop
    (bindsAt_opening (regular_of_notMem hr)), finish_reduceTo]
  rfl

theorem GeFits.processTokens (h : GeFits f) (hparen : f.WellParen Op.level) :
    Xapian.processTokens f = [f.value Operand.tree opTree] := by
  have hregular : Op.greaterEqual ∉ f.operators →
      Xapian.processTokens f = [f.value Operand.tree opTree] :=
    fun hf => finish_feedAll (regular_of_notMem hf) hparen
  induction f with
  | operand a => rfl
  | paren f ih => exact hregular h
  | binary o l r ihl ihr =>
    obtain ⟨hr, hl⟩ := h
    split_ifs at hl with ho
    · subst ho
      rw [processTokens_greaterEqual hr hparen.2.1,
        ihl hl hparen.1 fun hl => finish_feedAll (regular_of_notMem hl) hparen.1]
      rfl
    · refine hregular fun hmem => ?_
      rcases List.mem_append.mp hmem with hmem | hmem
      · exact hl hmem
      · exact (List.mem_cons.mp hmem).elim (fun heq => ho heq.symm) hr

/-! ## A `>=` outside parentheses becomes the root -/

theorem getLast_reduceTo {k : ℤ} (hk : -1 < k) (h : ops.getLast? = some ">=") :
    (vqlMachine.reduceTo k st ops).2.getLast? = some ">=" := by
  induction ops generalizing st with
  | nil => cases h
  | cons o ops ih =>
    by_cases ho : vqlMachine.priority o < k
    · rwa [reduceTo_of_lt fun top htop => Option.some.inj htop ▸ ho]
    · rw [reduceTo_cons_of_le (le_of_not_gt ho)]
      cases ops with
      | nil =>
        cases h
        exact absurd (priority_greaterEqual.trans_lt hk) ho
      | cons o' ops => exact ih (List.getLast?_cons_cons ▸ h)

theorem getLast_feed_operator (o : Op) (h : ops.getLast? = some ">=") :
    (vqlMachine.feed (st, ops) (.operator o)).2.getLast? = some ">=" := by
  by_cases ho : o = .greaterEqual
  · subst ho
    exact getLast_feed_greaterEqual _
  · have hpriority : -1 < vqlMachine.priority (vqlMachine.name o) :=
      (regular_of_ne ho).priority ▸ (regular_of_ne ho).opening
    have hlast := @getLast_reduceTo st _ _ hpriority h
    simp only [Machine.feed]
    rw [List.getLast?_cons, hlast]
    rfl

theorem getLast_feedAll (houtside : GeOutside f) (hparen : f.WellParen Op.level)
    (h : ops.getLast? = some ">=") :
    (vqlMachine.feedAll f.tokens (st, ops)).2.getLast? = some ">=" := by
  induction f generalizing st ops with
  | operand a => exact h
  | paren f ih => rwa [feedAll_paren_eq (regular_of_notMem houtside) hparen]
  | binary o l r ihl ihr =>
    rw [feedAll_binary]
    exact ihr houtside.2 hparen.2.1 (getLast_feed_operator o (ihl houtside.1 hparen.1 h))

theorem getLast_feedAll_of_mem (houtside : GeOutside f) (hparen : f.WellParen Op.level)
    (hmem : Op.greaterEqual ∈ f.operators) :
    (vqlMachine.feedAll f.tokens (st, ops)).2.getLast? = some ">=" := by
  induction f generalizing st ops with
  | operand a => cases hmem
  | paren f ih => exact absurd hmem houtside
  | binary o l r ihl ihr =>
    rw [feedAll_binary]
    rcases List.mem_append.mp hmem with hmem | hmem
    · exact getLast_feedAll houtside.2 hparen.2.1
        (getLast_feed_operator o (ihl houtside.1 hparen.1 hmem))
    · rcases List.mem_cons.mp hmem with rfl | hmem
      · exact getLast_feedAll houtside.2 hparen.2.1 (getLast_feed_greaterEqual _)
      · exact ihr houtside.2 hparen.2.1 hmem

theorem op_head_processAll (h : ops.getLast? = some ">=") :
    (processAll st ops).head?.map TTA.op = some ">=" := by
  obtain ⟨above, rfl⟩ := List.getLast?_eq_some_iff.mp h
  rw [processAll, List.foldl_append]
  rfl

theorem geFits_of_outside (houtside : GeOutside f) (hparen : f.WellParen Op.level)
    (h : (processTokens f).head? = some (f.value Operand.tree opTree)) : GeFits f := by
  induction f with
  | operand a => trivial
  | paren f ih => exact houtside
  | binary o l r ihl ihr =>
    by_cases hmem : Op.greaterEqual ∈ (Formula.binary o l r).operators
    · -- The root of what is read is `>=`, so this is the operator of the formula.
      have hroot : (processTokens (.binary o l r)).head?.map TTA.op = some ">=" :=
        op_head_processAll (getLast_feedAll_of_mem houtside hparen hmem)
      obtain rfl : o = .greaterEqual := by
        rw [h] at hroot
        have htext : o.text = ">=" := Option.some.inj hroot
        cases o <;> first | rfl | exact absurd htext (by decide)
      have hr : Op.greaterEqual ∉ r.operators := by
        cases r with
        | operand a => exact List.not_mem_nil
        | paren r => exact houtside.2
        | binary o' l' r' =>
          have hlevel : (5 : ℤ) ≤ o'.level := hparen.2.2.2
          cases o' <;> exact absurd hlevel (by decide)
      refine ⟨hr, ?_⟩
      rw [if_pos rfl]
      rw [processTokens_greaterEqual hr hparen.2.1] at h
      have htree := Option.some.inj h
      rw [Formula.value, opTree] at htree
      injection htree with _ hl
      exact ihl houtside.1 hparen.1 hl
    · exact GeFits.of_notMem hmem

/-! ## A `>=` in parentheses loses operands -/

/-- Weights that count operands. -/
def operandCount : Weighing vqlMachine := treeWeighing (fun _ => 1) (fun _ => 0)

theorem operandCount_value (f : Formula Operand Op) :
    operandCount.operand (f.value Operand.tree opTree) =
      (f.tokens.map operandCount.token).sum := weight_value rfl f

theorem operandCount_pos (f : Formula Operand Op) :
    0 < operandCount.operand (f.value Operand.tree opTree) := by
  induction f with
  | operand a =>
    cases a with
    | word text hword =>
      simp [operandCount, Formula.value, Operand.tree, TTA.weight, properOperand, hword]
    | quoted quote text closed => exact Nat.one_pos
    | range text closed => exact Nat.one_pos
  | paren f ih => exact ih
  | binary o l r ihl ihr =>
    change 0 < 0 + operandCount.operand (l.value Operand.tree opTree) + _
    omega

theorem sum_processAll_lt {t : TTA} (ht : 0 < operandCount.operand t) (hmem : "(" ∈ ops) :
    ((processAll (t :: st) ops).map operandCount.operand).sum <
      operandCount.total (t :: st) ops := by
  induction ops generalizing t st with
  | nil => cases hmem
  | cons o ops ih =>
    change ((processAll (processOp (t :: st) o) ops).map operandCount.operand).sum < _
    by_cases ho : o ∈ binaryOps
    · have hne : "(" ≠ o := by
        rintro rfl
        exact absurd ho (by decide)
      have hnode : processOp (t :: st) o = .new o st.head? (some t) .none :: st.tail := by
        simp [processOp, ho]
      have hle : operandCount.total (processOp (t :: st) o) ops ≤
          operandCount.total (t :: st) (o :: ops) := operandCount.total_apply_le o (t :: st) ops
      rw [hnode] at hle ⊢
      refine (ih ?_ (List.mem_of_ne_of_mem hne hmem)).trans_le hle
      change 0 < t.weight _ _ at ht
      cases st with
      | nil => exact ht.trans_le (Nat.le_add_left _ _)
      | cons l st => exact ht.trans_le (Nat.le_add_left _ _)
    · have hdrop : processOp (t :: st) o = st.tail := by
        simp [processOp, ho]
      have hfinish : ((processAll st.tail ops).map operandCount.operand).sum ≤
          operandCount.total st.tail ops := operandCount.sum_finish_le st.tail ops
      have htail : operandCount.total st.tail ops ≤ operandCount.total st ops := by
        cases st with
        | nil => exact le_rfl
        | cons l st => exact (Nat.le_add_left _ _).trans_eq (operandCount.total_cons l st ops).symm
      rw [hdrop, operandCount.total_operator, operandCount.total_cons]
      omega

theorem sum_tokens_paren (f : Formula Operand Op) :
    ((Formula.paren f).tokens.map operandCount.token).sum =
      (f.tokens.map operandCount.token).sum := operandCount_value (.paren f) ▸ operandCount_value f

theorem sum_tokens_binary (o : Op) (l r : Formula Operand Op) :
    ((Formula.binary o l r).tokens.map operandCount.token).sum =
      (l.tokens.map operandCount.token).sum + (r.tokens.map operandCount.token).sum := by
  rw [← operandCount_value, ← operandCount_value, ← operandCount_value]
  exact congrArg (· + _) (Nat.zero_add _)

theorem total_right_le (o : Op) (r : Formula Operand Op) (s : List TTA × List String) :
    operandCount.total (vqlMachine.feedAll r.tokens (vqlMachine.feed s (.operator o))).1
        (vqlMachine.feedAll r.tokens (vqlMachine.feed s (.operator o))).2 ≤
      operandCount.total s.1 s.2 + (r.tokens.map operandCount.token).sum := by
  have hfeed : operandCount.total (vqlMachine.feed s (.operator o)).1
      (vqlMachine.feed s (.operator o)).2 ≤ operandCount.total s.1 s.2 :=
    operandCount.total_feed_le s (.operator o)
  exact (operandCount.total_feedAll_le _ _).trans (Nat.add_le_add_right hfeed _)

theorem total_paren_le (f : Formula Operand Op) (st : List TTA) (ops : List String) :
    operandCount.total (vqlMachine.feedAll (Formula.paren f).tokens (st, ops)).1
        (vqlMachine.feedAll (Formula.paren f).tokens (st, ops)).2 ≤
      operandCount.total (vqlMachine.feedAll f.tokens (st, "(" :: ops)).1
        (vqlMachine.feedAll f.tokens (st, "(" :: ops)).2 := by
  rw [feedAll_paren]
  exact operandCount.total_close_le _ _

theorem total_cons_operator (o : String) (st : List TTA) (ops : List String) :
    operandCount.total st (o :: ops) = operandCount.total st ops :=
  (operandCount.total_operator _ _ _).trans (Nat.zero_add _)

theorem total_paren_lt (h : operandCount.total (vqlMachine.feedAll f.tokens (st, "(" :: ops)).1
      (vqlMachine.feedAll f.tokens (st, "(" :: ops)).2 <
        operandCount.total st ("(" :: ops) + (f.tokens.map operandCount.token).sum) :
    operandCount.total (vqlMachine.feedAll (Formula.paren f).tokens (st, ops)).1
        (vqlMachine.feedAll (Formula.paren f).tokens (st, ops)).2 <
      operandCount.total st ops + ((Formula.paren f).tokens.map operandCount.token).sum := by
  rw [total_cons_operator] at h
  rw [sum_tokens_paren]
  exact (total_paren_le f st ops).trans_lt h

theorem total_feedAll_lt_of_mem (hparen : f.WellParen Op.level)
    (hmem : Op.greaterEqual ∈ f.operators) (hopen : "(" ∈ ops)
    (hops : ∀ top ∈ ops.head?, f.BindsAt Op.level (priority top + 1)) :
    operandCount.total (vqlMachine.feedAll f.tokens (st, ops)).1
        (vqlMachine.feedAll f.tokens (st, ops)).2 <
      operandCount.total st ops + (f.tokens.map operandCount.token).sum := by
  induction f generalizing st ops with
  | operand a => cases hmem
  | paren f ih =>
    exact total_paren_lt (ih hparen hmem List.mem_cons_self fun top htop =>
      Option.some.inj htop ▸ bindsAt_zero f)
  | binary o l r ihl ihr =>
    obtain ⟨hl, hr, hleft, hright⟩ := hparen
    have hle := total_right_le o r (vqlMachine.feedAll l.tokens (st, ops))
    rw [feedAll_binary, sum_tokens_binary]
    by_cases hmeml : Op.greaterEqual ∈ l.operators
    · have hlt := @ihl st ops hl hmeml hopen fun top htop => hleft.mono (hops top htop)
      omega
    · -- The left operand is read as its tree, on top of what was there.
      have hread : vqlMachine.reduceTo o.level (vqlMachine.feedAll l.tokens (st, ops)).1
          (vqlMachine.feedAll l.tokens (st, ops)).2 =
            (l.value Operand.tree opTree :: st, ops) :=
        reduceTo_feedAll_of_lt (regular_of_notMem hmeml) hl (fun top htop => hops top htop) hleft
      have htotal : operandCount.total (l.value Operand.tree opTree :: st) ops =
          (l.tokens.map operandCount.token).sum + operandCount.total st ops := by
        rw [operandCount.total_cons, operandCount_value]
      by_cases ho : o = .greaterEqual
      · subst ho
        have hfeed : vqlMachine.feed (vqlMachine.feedAll l.tokens (st, ops))
            (.operator .greaterEqual) =
              (processAll (l.value Operand.tree opTree :: st) ops, [">="]) := by
          rw [feed_greaterEqual]
          change (vqlMachine.finish _ _, _) = _
          rw [← finish_reduceTo, hread]
          rfl
        have hlost : ((processAll (l.value Operand.tree opTree :: st) ops).map
            operandCount.operand).sum <
              operandCount.total (l.value Operand.tree opTree :: st) ops :=
          sum_processAll_lt (operandCount_pos l) hopen
        have hadd := operandCount.total_feedAll_le r.tokens
          (processAll (l.value Operand.tree opTree :: st) ops, [">="])
        dsimp only at hadd
        rw [total_cons_operator, operandCount.total_of_nil] at hadd
        rw [hfeed]
        omega
      · have hmemr : Op.greaterEqual ∈ r.operators := by
          rcases List.mem_append.mp hmem with hmem | hmem
          · exact absurd hmem hmeml
          · exact (List.mem_cons.mp hmem).resolve_left fun heq => ho heq.symm
        have hfeed : vqlMachine.feed (vqlMachine.feedAll l.tokens (st, ops)) (.operator o) =
            (l.value Operand.tree opTree :: st, o.text :: ops) := by
          simp only [Machine.feed, (regular_of_ne ho).priority, hread]
          rfl
        have htop : ∀ top ∈ (o.text :: ops).head?, r.BindsAt Op.level (priority top + 1) := by
          intro top htop
          obtain rfl : o.text = top := Option.some.inj htop
          have hpriority : priority o.text = o.level := (regular_of_ne ho).priority
          rwa [hpriority]
        have hlt := @ihr (l.value Operand.tree opTree :: st) _ hr hmemr
          (List.mem_cons_of_mem _ hopen) htop
        rw [total_cons_operator, htotal] at hlt
        rw [hfeed]
        omega

theorem total_feedAll_lt (hparen : f.WellParen Op.level) (hinside : ¬ GeOutside f) :
    operandCount.total (vqlMachine.feedAll f.tokens (st, ops)).1
        (vqlMachine.feedAll f.tokens (st, ops)).2 <
      operandCount.total st ops + (f.tokens.map operandCount.token).sum := by
  induction f generalizing st ops with
  | operand a => exact absurd trivial hinside
  | paren f ih =>
    exact total_paren_lt (total_feedAll_lt_of_mem hparen (not_not.mp hinside) List.mem_cons_self
      fun top htop => Option.some.inj htop ▸ bindsAt_zero f)
  | binary o l r ihl ihr =>
    rw [feedAll_binary, sum_tokens_binary]
    by_cases hl : GeOutside l
    · have hfeed := operandCount.total_feed_le (vqlMachine.feedAll l.tokens (st, ops))
        (.operator o)
      have hleft := operandCount.total_feedAll_le l.tokens (st, ops)
      have hzero : operandCount.token (.operator o) = 0 := rfl
      generalize vqlMachine.feed (vqlMachine.feedAll l.tokens (st, ops)) (.operator o) = s
        at hfeed ⊢
      obtain ⟨st', ops'⟩ := s
      have hlt := @ihr st' ops' hparen.2.1 fun hr => hinside ⟨hl, hr⟩
      dsimp only at hfeed hleft
      omega
    · have hlt := @ihl st ops hparen.1 hl
      have hle := total_right_le o r (vqlMachine.feedAll l.tokens (st, ops))
      omega

theorem processAll_tokens_iff (hparen : f.WellParen Op.level) :
    (processTokens f).head? = some (f.value Operand.tree opTree) ↔ GeFits f := by
  constructor
  · intro h
    by_cases houtside : GeOutside f
    · exact geFits_of_outside houtside hparen h
    · -- The trees that are left have too few operands.
      have hlost : operandCount.total (vqlMachine.feedAll f.tokens ([], [])).1
          (vqlMachine.feedAll f.tokens ([], [])).2 <
            operandCount.total [] [] + (f.tokens.map operandCount.token).sum :=
        total_feedAll_lt hparen houtside
      have hfinish : ((processTokens f).map operandCount.operand).sum ≤ operandCount.total
          (vqlMachine.feedAll f.tokens ([], [])).1 (vqlMachine.feedAll f.tokens ([], [])).2 :=
        operandCount.sum_finish_le _ _
      obtain ⟨rest, hrest⟩ := List.head?_eq_some_iff.mp h
      rw [hrest, List.map_cons, List.sum_cons, operandCount_value] at hfinish
      rw [operandCount.total_nil] at hlost
      omega
  · intro h
    rw [h.processTokens hparen]
    rfl

end Reading

end Veda.Xapian
