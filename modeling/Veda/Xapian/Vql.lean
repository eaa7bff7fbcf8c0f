import Veda.Lib.Utf8
import Veda.Lib.Outcome

set_option autoImplicit false

/-!
# Query strings

`TTA::parse_expr` reads a query string byte by byte into a tree of operators and operands. It keeps
a stack of trees and a stack of operators; the top of a stack is the head of its list here. Indices
into the bytes are kept as the source keeps them, and an index, a slice or a subtraction that leaves
its range is a panic.

## Main definitions

* `Xapian.TTA`, `Xapian.Decor` — the tree that is built.
* `Xapian.priority`, `Xapian.isOp`, `Xapian.processOp` — the tables of operators.
* `Xapian.parseStep`, `Xapian.parseExpr` — one round of the loop and the parser.

## Main results

* `Xapian.lt_of_parseStep` — every round moves on, so that the number of bytes bounds the
  number of rounds.
* `Xapian.parseFrom_of_step`, `Xapian.parseFrom_of_length_le` — the loop from a position
  is one round and the loop from the position after it.
-/

namespace Veda.Xapian

open Veda.Lib (utf8 fromUtf8 bind_eq_ok)

/-! ## Trees -/

/-- How an operand was written (`Decor`). -/
inductive Decor
  | none
  | quoted
  | range
  deriving DecidableEq

/-- A tree of operators and operands (`TTA`). -/
inductive TTA
  | new (op : String) (l r : Option TTA) (tokenDecor : Decor)

/-- The operator or the text of the operand at the root. -/
def TTA.op : TTA → String
  | .new op _ _ _ => op

/-! ## Bytes -/

/-- An index or a slice outside the bytes, or a subtraction below zero. -/
inductive Panic
  | outOfRange

/-- The byte at an index. -/
def byteAt (s : List UInt8) (i : ℕ) : Except Panic UInt8 :=
  match s[i]? with
  | some b => .ok b
  | none => .error .outOfRange

/-- The bytes between two indices. -/
def slice (s : List UInt8) (b e : ℕ) : Except Panic (List UInt8) :=
  if b ≤ e ∧ e ≤ s.length then .ok ((s.drop b).take (e - b)) else .error .outOfRange

/-- A difference of indices. -/
def minus (i n : ℕ) : Except Panic ℕ := if n ≤ i then .ok (i - n) else .error .outOfRange

/-- The first index from `i` on at which the bytes end or a byte does not fit. -/
def advance (fits : UInt8 → Bool) (s : List UInt8) (i : ℕ) : ℕ :=
  i + ((s.drop i).takeWhile fits).length

/-- White space between tokens (`delim`). -/
def delim (c : UInt8) : Bool :=
  c = ' '.toUInt8 || c = '\t'.toUInt8 || c = '\r'.toUInt8 || c = '\n'.toUInt8

/-- The bytes that an operand without quotes goes on over. -/
def unquoted (c : UInt8) : Bool :=
  c ≠ ' '.toUInt8 && c ≠ '&'.toUInt8 && c ≠ '|'.toUInt8 && c ≠ '='.toUInt8 && c ≠ '<'.toUInt8 &&
    c ≠ '>'.toUInt8 && c ≠ '!'.toUInt8 && c ≠ '-'.toUInt8

/-! ## Operators -/

/-- The operator with which some bytes start, or nothing (`is_op`). -/
def isOp : List UInt8 → String
  | [a] => if a = '>'.toUInt8 then ">" else if a = '<'.toUInt8 then "<" else ""
  | [a, b] =>
    if a = '>'.toUInt8 ∧ b = '='.toUInt8 then ">="
    else if a = '<'.toUInt8 ∧ b = '='.toUInt8 then "<="
    else if a = '='.toUInt8 ∧ b = '='.toUInt8 then "=="
    else if a = '!'.toUInt8 ∧ b = '='.toUInt8 then "!="
    else if a = '='.toUInt8 ∧ b = '*'.toUInt8 then "=*"
    else if a = '='.toUInt8 ∧ b = '+'.toUInt8 then "=+"
    else if a = '|'.toUInt8 ∧ b = '|'.toUInt8 then "||"
    else if a = '&'.toUInt8 ∧ b = '&'.toUInt8 then "&&"
    else if a = '>'.toUInt8 ∧ b ≠ '='.toUInt8 then ">"
    else if a = '<'.toUInt8 ∧ b ≠ '='.toUInt8 then "<"
    else ""
  | [a, b, c] =>
    if a = '='.toUInt8 ∧ b = '='.toUInt8 ∧ c = '='.toUInt8 then "===" else ""
  | _ => ""

/-- The priority of an operator (`priority`). The table has `=>` where the operators have `>=`. -/
def priority (op : String) : ℤ :=
  if op = "<" ∨ op = "<=" ∨ op = ">" ∨ op = "=>" then 4
  else if op = "==" ∨ op = "!=" ∨ op = "=*" ∨ op = "=+" ∨ op = "===" then 3
  else if op = "&&" then 2
  else if op = "||" then 1
  else -1

/-- The operators that make a node (`process_op`). -/
def binaryOps : List String :=
  ["<", ">", "==", "===", "!=", "=*", "=+", ">=", "<=", "||", "&&"]

/-- Two trees are taken from the stack; an operator of two operands puts its node there
(`process_op`). -/
def processOp (st : List TTA) (op : String) : List TTA :=
  let r := st.head?
  let l := st.tail.head?
  if op ∈ binaryOps then TTA.new op l r .none :: st.tail.tail else st.tail.tail

/-- A closing parenthesis: the operators above the last opening one are processed, and the opening
one is taken away. -/
def closeParen (st : List TTA) : List String → List TTA × List String
  | [] => (st, [])
  | last :: op => if last = "(" then (st, op) else closeParen (processOp st last) op

/-- Before an operator is pushed, the operators that do not have a lower priority are processed. -/
def popOps (curOp : String) (st : List TTA) : List String → List TTA × List String
  | [] => (st, [])
  | last :: op =>
    if priority last < priority curOp then (st, last :: op)
    else popOps curOp (processOp st last) op

/-- At the end all operators are processed. -/
def processAll (st : List TTA) (op : List String) : List TTA := op.foldl processOp st

/-! ## The loop -/

/-- The bytes in which an operator is looked for: two of them, one less at the end, and three
where the first and the third one are `=`. -/
def opWindow (s : List UInt8) (i : ℕ) : Except Panic (List UInt8) := do
  let e := if i + 2 ≥ s.length then s.length - 1 else i + 2
  let first ← byteAt s i
  let last ← byteAt s e
  let e := if first = '='.toUInt8 ∧ last = '='.toUInt8 then e + 1 else e
  slice s i e

/-- An operand is pushed if its bytes are well formed. -/
def pushOperand (text : List UInt8) (decor : Decor) (st : List TTA) : List TTA :=
  match fromUtf8 text with
  | some op => TTA.new op none none decor :: st
  | none => st

/-- An operand in quotes or brackets from its opening byte on, with the index of its closing
byte. -/
def readQuoted (s : List UInt8) (i : ℕ) (curTag : UInt8) (st : List TTA) :
    Except Panic (ℕ × List TTA) := do
  let closedTag :=
    if curTag = '\''.toUInt8 ∨ curTag = '`'.toUInt8 then curTag else ']'.toUInt8
  let bp := i + 1
  let i := advance (fun c => c ≠ closedTag) s bp
  let text ← slice s bp i
  return (i, pushOperand text (if curTag = '['.toUInt8 then .range else .quoted) st)

/-- An operand without quotes, with the index after it. If it runs over a parenthesis at its end,
one byte is given back, or two after a quote. -/
def readUnquoted (s : List UInt8) (bp : ℕ) (st : List TTA) : Except Panic (ℕ × List TTA) := do
  let i := advance unquoted s bp
  let last ← byteAt s (← minus i 1)
  if last = '('.toUInt8 ∨ last = ')'.toUInt8 then
    let before ← byteAt s (← minus i 2)
    let text ← slice s bp (if before ≠ '\''.toUInt8 then i - 1 else i - 2)
    return (i - 2, pushOperand text .none st)
  else
    let text ← slice s bp i
    return (i, pushOperand text .none st)

/-- An operand. -/
def readOperand (s : List UInt8) (i : ℕ) (st : List TTA) : Except Panic (ℕ × List TTA) := do
  let i := advance (fun c => c = ' '.toUInt8) s i
  let curTag ← byteAt s i
  if curTag = '\''.toUInt8 ∨ curTag = '`'.toUInt8 ∨ curTag = '['.toUInt8 then
    readQuoted s i curTag st
  else
    readUnquoted s i st

/-- One round of the loop at an index inside the bytes. -/
def parseStep (s : List UInt8) (i : ℕ) (st : List TTA) (op : List String) :
    Except Panic (ℕ × List TTA × List String) := do
  let c ← byteAt s i
  if delim c then
    return (i + 1, st, op)
  else if c = '('.toUInt8 then
    return (i + 1, st, "(" :: op)
  else if c = ')'.toUInt8 then
    return (i + 1, closeParen st op)
  else
    let curOp := isOp (← opWindow s i)
    if curOp ≠ "" then
      let popped := popOps curOp st op
      return (i + ((utf8 curOp).length - 1) + 1, popped.1, curOp :: popped.2)
    else
      let (i, st) ← readOperand s i st
      return (i + 1, st, op)

/-- The loop, for at most so many rounds. -/
def parseLoop (s : List UInt8) : ℕ → ℕ → List TTA → List String →
    Except Panic (List TTA × List String)
  | 0, _, st, op => .ok (st, op)
  | n + 1, i, st, op =>
    if i < s.length then do
      let (i, st, op) ← parseStep s i st op
      parseLoop s n i st op
    else .ok (st, op)

/-- The tree of a query string (`TTA::parse_expr`). -/
def parseExpr (src : String) : Except Panic (Option TTA) := do
  let s := utf8 src
  let (st, op) ← parseLoop s s.length 0 [] []
  return (processAll st op).head?

/-! ## What one round does -/

section Rounds

variable {s : List UInt8} {i i' b e : ℕ} {c : UInt8} {st st' : List TTA} {op op' : List String}
  {text : List UInt8}

theorem byteAt_eq_ok : byteAt s i = .ok c ↔ s[i]? = some c := by
  unfold byteAt
  cases s[i]? <;> simp

theorem slice_eq_ok :
    slice s b e = .ok text ↔ (b ≤ e ∧ e ≤ s.length) ∧ (s.drop b).take (e - b) = text := by
  unfold slice
  split_ifs with h
  · simp [h]
  · simp [h]

theorem minus_eq_ok {n k : ℕ} : minus i n = .ok k ↔ n ≤ i ∧ i - n = k := by
  unfold minus
  split_ifs with h <;> simp [h]

theorem le_advance (fits : UInt8 → Bool) (s : List UInt8) (i : ℕ) : i ≤ advance fits s i :=
  Nat.le_add_right _ _

theorem advance_of_not {fits : UInt8 → Bool} (hc : s[i]? = some c) (hfits : fits c = false) :
    advance fits s i = i := by
  obtain ⟨hi, rfl⟩ := List.getElem?_eq_some_iff.mp hc
  rw [advance, List.drop_eq_getElem_cons hi, List.takeWhile_cons_of_neg (by simp [hfits])]
  rfl

theorem readQuoted_eq_ok {tag : UInt8} (h : readQuoted s i tag st = .ok (i', st')) :
    i + 1 ≤ i' ∧ ∃ text decor, slice s (i + 1) i' = .ok text ∧ st' = pushOperand text decor st := by
  obtain ⟨text, htext, hpush⟩ := bind_eq_ok h
  cases hpush
  exact ⟨le_advance _ _ _, text, _, htext, rfl⟩

theorem readUnquoted_eq_ok (hc : s[b]? = some c) (hopen : c ≠ '('.toUInt8)
    (hclose : c ≠ ')'.toUInt8) (h : readUnquoted s b st = .ok (i', st')) :
    b ≤ i' ∧ ∃ e text, e ≤ i' + 1 ∧ slice s b e = .ok text ∧ st' = pushOperand text .none st := by
  obtain ⟨k, hone, hfrom⟩ := bind_eq_ok h
  obtain ⟨hone, rfl⟩ := minus_eq_ok.mp hone
  obtain ⟨last, hlast, hrest⟩ := bind_eq_ok hfrom
  split_ifs at hrest with hparen
  · obtain ⟨k, htwo, hbefore⟩ := bind_eq_ok hrest
    obtain ⟨before, -, hslice⟩ := bind_eq_ok hbefore
    obtain ⟨text, htext, hpush⟩ := bind_eq_ok hslice
    have htwo := (minus_eq_ok.mp htwo).1
    cases hpush
    -- The parenthesis is not the first byte of the operand.
    have hfirst : advance unquoted s b - 1 ≠ b := by
      intro heq
      rw [heq, byteAt_eq_ok, hc] at hlast
      cases hlast
      exact hparen.elim hopen hclose
    have hle := (slice_eq_ok.mp htext).1.1
    refine ⟨?_, _, text, ?_, htext, rfl⟩
    · split_ifs at hle <;> omega
    · split_ifs <;> omega
  · obtain ⟨text, htext, hpush⟩ := bind_eq_ok hrest
    cases hpush
    exact ⟨le_advance _ _ _, _, text, Nat.le_succ _, htext, rfl⟩

theorem parseStep_cases (h : parseStep s i st op = .ok (i', st', op')) :
    (i' = i + 1 ∧ st' = st ∧ (op' = op ∨ op' = "(" :: op)) ∨
      (i' = i + 1 ∧ (st', op') = closeParen st op) ∨
      (∃ w, opWindow s i = .ok w ∧ isOp w ≠ "" ∧ i' = i + ((utf8 (isOp w)).length - 1) + 1 ∧
        st' = (popOps (isOp w) st op).1 ∧ op' = isOp w :: (popOps (isOp w) st op).2) ∨
      (i < i' ∧ op' = op ∧ ∃ b e text decor, i ≤ b ∧ e ≤ i' ∧ slice s b e = .ok text ∧
        st' = pushOperand text decor st) := by
  obtain ⟨c, hc, hround⟩ := bind_eq_ok h
  rw [byteAt_eq_ok] at hc
  split_ifs at hround with hdelim hopen hclose
  · cases hround
    exact .inl ⟨rfl, rfl, .inl rfl⟩
  · cases hround
    exact .inl ⟨rfl, rfl, .inr rfl⟩
  · obtain ⟨rfl, hst⟩ := Prod.mk.inj (Except.ok.inj hround)
    exact .inr (.inl ⟨rfl, hst.symm⟩)
  · obtain ⟨w, hw, hround⟩ := bind_eq_ok hround
    dsimp only at hround
    split_ifs at hround with hop
    · cases hround
      exact .inr (.inr (.inl ⟨w, hw, hop, rfl, rfl, rfl⟩))
    · obtain ⟨⟨k, stk⟩, hread, hround⟩ := bind_eq_ok hround
      cases hround
      have hspace : advance (fun c => c = ' '.toUInt8) s i = i := by
        refine advance_of_not hc (decide_eq_false ?_)
        rintro rfl
        exact hdelim rfl
      obtain ⟨tag, htag, hread⟩ := bind_eq_ok hread
      rw [hspace] at htag hread
      split_ifs at hread with hquoted
      · obtain ⟨hle, text, decor, htext, rfl⟩ := readQuoted_eq_ok hread
        exact .inr (.inr (.inr ⟨by omega, rfl, _, _, text, decor, by omega, by omega, htext, rfl⟩))
      · obtain ⟨hle, e, text, he, htext, rfl⟩ := readUnquoted_eq_ok hc hopen hclose hread
        exact .inr (.inr (.inr ⟨by omega, rfl, _, _, text, _, le_rfl, he, htext, rfl⟩))

theorem lt_of_parseStep (h : parseStep s i st op = .ok (i', st', op')) : i < i' := by
  obtain ⟨rfl, -⟩ | ⟨rfl, -⟩ | ⟨w, -, -, rfl, -⟩ | ⟨hlt, -⟩ := parseStep_cases h
  · exact Nat.lt_succ_self i
  · exact Nat.lt_succ_self i
  · omega
  · exact hlt

end Rounds

/-! ## The loop from a position -/

section Loop

variable {s : List UInt8} {i i' n : ℕ} {st st' : List TTA} {op op' : List String}

theorem parseLoop_congr {m : ℕ} (hn : s.length - i ≤ n) (hm : s.length - i ≤ m) :
    parseLoop s n i st op = parseLoop s m i st op := by
  induction n generalizing i st op m with
  | zero =>
    cases m with
    | zero => rfl
    | succ m => rw [parseLoop, parseLoop, if_neg (by omega)]
  | succ n ih =>
    cases m with
    | zero => rw [parseLoop, parseLoop, if_neg (by omega)]
    | succ m =>
      rw [parseLoop, parseLoop]
      split_ifs with hi
      · cases hstep : parseStep s i st op with
        | error _ => rfl
        | ok next =>
          obtain ⟨i', st', op'⟩ := next
          have hlt := lt_of_parseStep hstep
          exact ih (by omega) (by omega)
      · rfl

/-- The loop from a position on. -/
def parseFrom (s : List UInt8) (i : ℕ) (st : List TTA) (op : List String) :
    Except Panic (List TTA × List String) := parseLoop s (s.length - i) i st op

theorem parseExpr_eq (src : String) :
    parseExpr src =
      (parseFrom (utf8 src) 0 [] []).map (fun s => (processAll s.1 s.2).head?) := by
  unfold parseExpr parseFrom
  dsimp only
  rw [Nat.sub_zero]
  cases parseLoop (utf8 src) (utf8 src).length 0 [] [] <;> rfl

theorem parseFrom_of_length_le (hi : s.length ≤ i) : parseFrom s i st op = .ok (st, op) := by
  rw [parseFrom, Nat.sub_eq_zero_of_le hi, parseLoop]

theorem parseFrom_of_lt (hi : i < s.length) :
    parseFrom s i st op =
      (parseStep s i st op >>= fun next => parseFrom s next.1 next.2.1 next.2.2) := by
  obtain ⟨n, hn⟩ : ∃ n, s.length - i = n + 1 := ⟨s.length - i - 1, by omega⟩
  rw [parseFrom, hn, parseLoop, if_pos hi]
  cases hstep : parseStep s i st op with
  | error _ => rfl
  | ok next =>
    have hlt := lt_of_parseStep hstep
    exact parseLoop_congr (by omega) le_rfl

theorem parseFrom_of_step (hstep : parseStep s i st op = .ok (i', st', op')) :
    parseFrom s i st op = parseFrom s i' st' op' := by
  have hi : i < s.length := by
    obtain ⟨c, hc, -⟩ := bind_eq_ok hstep
    exact (List.getElem?_eq_some_iff.mp (byteAt_eq_ok.mp hc)).1
  rw [parseFrom_of_lt hi, hstep]
  rfl

end Loop

end Veda.Xapian
