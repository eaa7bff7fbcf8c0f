import Veda.Xapian.QueryBytes

set_option autoImplicit false

/-!
# Texts that stop the parser

The text of a query comes from a client. The parser goes through it once and always moves on. It
looks at the byte before the end of an operand without quotes. Such an operand is empty when it
starts with a byte that ends it, that is one of `& | = < > ! -` with which no operator starts. At
the start of the text there is no byte before that one, and directly behind a parenthesis the parser
gives the parenthesis back and takes a slice that ends before it starts.

## Main definitions

* `Xapian.Runs` — rounds of the loop up to the end of the text.
* `Xapian.Survives` — the parser ends without a panic.
* `Xapian.Lexeme`, `Xapian.Readable` — the division of a text into its parts.

## Main results

* `Xapian.parseStep_of_lexeme`, `Xapian.lexeme_of_parseStep` — a round is one part.
* `Xapian.survives_iff` — which texts the parser survives.
-/

namespace Veda.Xapian

open Veda.Lib (utf8 bind_eq_ok)

/-! ## Runs of the loop -/

/-- The loop from an index and two stacks on ends with two stacks, after finitely many rounds and
without a panic. -/
inductive Runs (s : List UInt8) :
    ℕ → List TTA → List String → List TTA × List String → Prop
  | stop {i : ℕ} {st : List TTA} {op : List String} (hi : s.length ≤ i) :
    Runs s i st op (st, op)
  | round {i i' : ℕ} {st st' : List TTA} {op op' : List String} {result : List TTA × List String}
    (hstep : parseStep s i st op = .ok (i', st', op')) (hrest : Runs s i' st' op' result) :
    Runs s i st op result

/-- The parser ends without a panic, with the tree that is on the stack at the end or nothing. -/
def Survives (src : String) : Prop :=
  ∃ st op, Runs (utf8 src) 0 [] [] (st, op) ∧ parseExpr src = .ok (processAll st op).head?

/-! ## The parts of a text -/

/-- The parentheses. -/
def parenthesis (c : UInt8) : Bool := c = '('.toUInt8 || c = ')'.toUInt8

/-- The bytes that start an operand in quotes or brackets. -/
def quoting (c : UInt8) : Bool := c = '\''.toUInt8 || c = '`'.toUInt8 || c = '['.toUInt8

/-- The byte that ends it. -/
def closing (tag : UInt8) : UInt8 :=
  if tag = '\''.toUInt8 ∨ tag = '`'.toUInt8 then tag else ']'.toUInt8

/-- The bytes that start an operand without quotes. -/
def starting (c : UInt8) : Bool := !delim c && !parenthesis c && !quoting c && unquoted c

/-- A part of the text: it starts at the index `i` and has `n` bytes. -/
inductive Lexeme (s : List UInt8) (i : ℕ) : ℕ → Prop
  | space {c : UInt8} {after : List UInt8} (h : s.drop i = c :: after) (hc : delim c = true) :
    Lexeme s i 1
  | parenthesis {c : UInt8} {after : List UInt8} (h : s.drop i = c :: after)
    (hc : parenthesis c = true) : Lexeme s i 1
  | operator (h : isOp (window (s.drop i)) ≠ "") :
    Lexeme s i (utf8 (isOp (window (s.drop i)))).length
  /-- an operand in quotes or brackets, with the byte that ends it -/
  | quoted {tag : UInt8} {after : List UInt8} (h : s.drop i = tag :: after)
    (htag : quoting tag = true) :
    Lexeme s i (1 + (after.takeWhile (fun c => c ≠ closing tag)).length + 1)
  /-- an operand without quotes, with the byte behind it, which is skipped -/
  | word {c last : UInt8} {after w : List UInt8} (h : s.drop i = c :: after)
    (hc : starting c = true) (hw : (s.drop i).takeWhile unquoted = w ++ [last])
    (hlast : parenthesis last = false) : Lexeme s i (w.length + 2)
  /-- an operand without quotes in front of a parenthesis that ends it -/
  | enclosed {c last : UInt8} {after w : List UInt8} (h : s.drop i = c :: after)
    (hc : starting c = true) (hw : (s.drop i).takeWhile unquoted = w ++ [last])
    (hlast : parenthesis last = true) : Lexeme s i w.length
  /-- a byte with which no operator starts and no operand, with a byte before it that is no
  parenthesis -/
  | lone {before c : UInt8} {after : List UInt8} (h : s.drop i = c :: after)
    (hdelim : delim c = false) (hc : unquoted c = false) (hop : isOp (window (s.drop i)) = "")
    (hi : i ≠ 0) (hbefore : s[i - 1]? = some before) (hparen : parenthesis before = false) :
    Lexeme s i 1

/-- The text from an index on can be divided into its parts. -/
inductive Readable (s : List UInt8) : ℕ → Prop
  | stop {i : ℕ} (hi : s.length ≤ i) : Readable s i
  | part {i n : ℕ} (hpart : Lexeme s i n) (hrest : Readable s (i + n)) : Readable s i

/-! ## One round is one part -/

section Round

variable {s after : List UInt8} {i i' n : ℕ} {c : UInt8} {st st' : List TTA} {op op' : List String}

theorem quoting_iff {c : UInt8} :
    quoting c = true ↔ c = '\''.toUInt8 ∨ c = '`'.toUInt8 ∨ c = '['.toUInt8 := by
  simp [quoting, or_assoc]

theorem parenthesis_iff {c : UInt8} :
    parenthesis c = true ↔ c = '('.toUInt8 ∨ c = ')'.toUInt8 := by
  simp [parenthesis]

theorem parenthesis_eq_false {c : UInt8} :
    parenthesis c = false ↔ c ≠ '('.toUInt8 ∧ c ≠ ')'.toUInt8 := by
  simp [parenthesis]

theorem not_quoting_of_stop {c : UInt8} (hc : unquoted c = false) :
    quoting c = false ∧ parenthesis c = false := by
  have hall : ∀ n < 256, unquoted (UInt8.ofNat n) = false →
      quoting (UInt8.ofNat n) = false ∧ parenthesis (UInt8.ofNat n) = false := by decide +kernel
  have h := hall c.toNat c.toNat_lt
  rw [UInt8.ofNat_toNat] at h
  exact h hc

theorem isOp_window_unquoted (hc : unquoted c = true) : isOp (window (c :: after)) = "" := by
  simp only [unquoted, Bool.and_eq_true, decide_eq_true_eq] at hc
  obtain ⟨⟨⟨⟨⟨⟨⟨-, hand⟩, hor⟩, hequal⟩, hless⟩, hgreater⟩, hnot⟩, -⟩ := hc
  exact isOp_window_of_not hless hgreater hequal hnot hor hand

theorem isOp_window_layout (hc : delim c = true ∨ parenthesis c = true) :
    isOp (window (c :: after)) = "" := by
  have hall : ∀ n < 256, delim (UInt8.ofNat n) = true ∨ parenthesis (UInt8.ofNat n) = true →
      UInt8.ofNat n ≠ '<'.toUInt8 ∧ UInt8.ofNat n ≠ '>'.toUInt8 ∧ UInt8.ofNat n ≠ '='.toUInt8 ∧
        UInt8.ofNat n ≠ '!'.toUInt8 ∧ UInt8.ofNat n ≠ '|'.toUInt8 ∧
        UInt8.ofNat n ≠ '&'.toUInt8 := by decide +kernel
  have h := hall c.toNat c.toNat_lt
  rw [UInt8.ofNat_toNat] at h
  obtain ⟨hless, hgreater, hequal, hnot, hor, hand⟩ := h hc
  exact isOp_window_of_not hless hgreater hequal hnot hor hand

theorem readQuoted_some {tag : UInt8} (h : s.drop i = tag :: after) (st : List TTA) :
    ∃ st', readQuoted s i tag st =
      .ok (i + 1 + (after.takeWhile fun c => c ≠ closing tag).length, st') := by
  have hlen := length_of_drop h
  have hdrop : s.drop (i + 1) = after := by
    rw [← List.drop_drop, h]
    rfl
  have hle : (after.takeWhile fun c => c ≠ closing tag).length ≤ after.length :=
    (List.takeWhile_prefix _).length_le
  have hslice : ∃ text, slice s (i + 1)
      (i + 1 + (after.takeWhile fun c => c ≠ closing tag).length) = .ok text :=
    ⟨_, slice_drop hdrop (k := 0) (Nat.zero_le _) hle (by omega)⟩
  obtain ⟨text, htext⟩ := hslice
  rw [readQuoted, advance, hdrop]
  change ∃ st', (slice s (i + 1) (i + 1 + (after.takeWhile fun c => c ≠ closing tag).length) >>=
    _) = _
  rw [htext]
  exact ⟨_, rfl⟩

theorem readUnquoted_lone {before : UInt8} (h : s.drop (i + 1) = c :: after)
    (hc : unquoted c = false) (hbefore : s[i]? = some before) (hparen : parenthesis before = false)
    (st : List TTA) : ∃ st', readUnquoted s (i + 1) st = .ok (i + 1, st') := by
  have hlen := length_of_drop h
  have hadvance : advance unquoted s (i + 1) = i + 1 :=
    advance_of_not (byteAt_eq_ok.mp (byteAt_head h)) hc
  have hslice : slice s (i + 1) (i + 1) = .ok [] := by
    refine slice_eq_ok.mpr ⟨⟨le_rfl, by omega⟩, ?_⟩
    rw [Nat.sub_self, List.take_zero]
  obtain ⟨hopen, hclose⟩ := parenthesis_eq_false.mp hparen
  refine ⟨pushOperand [] .none st, ?_⟩
  rw [readUnquoted, hadvance]
  change (byteAt s i >>= _) = _
  rw [byteAt_eq_ok.mpr hbefore]
  change (if before = '('.toUInt8 ∨ before = ')'.toUInt8 then _ else _) = _
  rw [if_neg (by simp [hopen, hclose]), hslice]
  rfl

theorem place_of_readUnquoted (h : s.drop i = c :: after) (hc : unquoted c = false)
    (hread : readUnquoted s i st = .ok (i', st')) :
    i' = i ∧ i ≠ 0 ∧ ∃ before, s[i - 1]? = some before ∧ parenthesis before = false := by
  have hadvance : advance unquoted s i = i :=
    advance_of_not (byteAt_eq_ok.mp (byteAt_head h)) hc
  obtain ⟨k, hminus, hread⟩ := bind_eq_ok hread
  rw [hadvance] at hminus hread
  obtain ⟨hone, rfl⟩ := minus_eq_ok.mp hminus
  obtain ⟨before, hbefore, hread⟩ := bind_eq_ok hread
  split_ifs at hread with hparen
  · -- the slice would end before it starts
    obtain ⟨k, -, hread⟩ := bind_eq_ok hread
    obtain ⟨second, -, hread⟩ := bind_eq_ok hread
    obtain ⟨text, htext, -⟩ := bind_eq_ok hread
    have hle := (slice_eq_ok.mp htext).1.1
    split_ifs at hle <;> omega
  · obtain ⟨text, -, hread⟩ := bind_eq_ok hread
    cases hread
    rw [not_or] at hparen
    exact ⟨rfl, by omega, before, byteAt_eq_ok.mp hbefore, parenthesis_eq_false.mpr hparen⟩

theorem exists_last (h : s.drop i = c :: after) (hc : unquoted c = true) :
    ∃ w last, (s.drop i).takeWhile unquoted = w ++ [last] := by
  rcases List.eq_nil_or_concat' ((s.drop i).takeWhile unquoted) with hnil | ⟨w, last, hw⟩
  · rw [h, List.takeWhile_cons_of_pos hc] at hnil
    cases hnil
  · exact ⟨w, last, hw⟩

theorem exists_before {w : List UInt8} {last : UInt8} (h : s.drop i = c :: after)
    (hc : parenthesis c = false) (hw : (s.drop i).takeWhile unquoted = w ++ [last])
    (hlast : parenthesis last = true) : ∃ zs before, w = zs ++ [before] := by
  rcases List.eq_nil_or_concat' w with rfl | ⟨zs, before, rfl⟩
  · have hstarts := List.takeWhile_prefix (l := s.drop i) unquoted
    rw [hw, h, List.nil_append, List.cons_prefix_cons] at hstarts
    rw [hstarts.1, hc] at hlast
    cases hlast
  · exact ⟨zs, before, rfl⟩

theorem starting_iff : starting c = true ↔
    delim c = false ∧ parenthesis c = false ∧ quoting c = false ∧ unquoted c = true := by
  simp [starting, and_assoc]

theorem parseStep_unquoted (h : s.drop i = c :: after) (hdelim : delim c = false)
    (hparen : parenthesis c = false) (hquote : quoting c = false)
    (hop : isOp (window (c :: after)) = "") :
    parseStep s i st op = (readUnquoted s i st).map fun next => (next.1 + 1, next.2, op) := by
  obtain ⟨hopen, hclose⟩ := parenthesis_eq_false.mp hparen
  rw [parseStep_operand h hdelim hopen hclose hop, if_neg]
  rw [← quoting_iff, hquote]
  exact Bool.false_ne_true

/-- **A part is one round** of the loop. -/
theorem parseStep_of_lexeme (h : Lexeme s i n) (hi : i < s.length) (st : List TTA)
    (op : List String) :
    ∃ st' op', parseStep s i st op = .ok (i + n, st', op') := by
  cases h with
  | space h hc => exact ⟨st, op, parseStep_delim h hc⟩
  | parenthesis h hc =>
    rcases parenthesis_iff.mp hc with rfl | rfl
    · exact ⟨st, _, parseStep_opening h⟩
    · exact ⟨_, _, parseStep_closing h⟩
  | operator h =>
    obtain ⟨c, after, hdrop⟩ := List.exists_cons_of_ne_nil
      (List.ne_nil_of_length_pos (by rw [List.length_drop]; omega : 0 < (s.drop i).length))
    rw [hdrop] at h ⊢
    have hlayout : ¬ (delim c = true ∨ parenthesis c = true) := fun hc => h (isOp_window_layout hc)
    rw [not_or, Bool.not_eq_true, Bool.not_eq_true, parenthesis_eq_false] at hlayout
    have hpos : 0 < (utf8 (isOp (window (c :: after)))).length :=
      List.length_pos_iff.mpr fun hnil => h (Veda.Lib.utf8_eq_nil.mp hnil)
    rw [parseStep_token hdrop hlayout.1 hlayout.2.1 hlayout.2.2, if_pos h, Nat.add_assoc,
      Nat.sub_add_cancel hpos]
    exact ⟨_, _, rfl⟩
  | quoted h htag =>
    obtain ⟨st', hread⟩ := readQuoted_some h st
    rcases quoting_iff.mp htag with rfl | rfl | rfl
    all_goals
      rw [parseStep_operand h (by decide) (by decide) (by decide)
        (isOp_window_unquoted (by decide)), if_pos (by decide), hread]
      refine ⟨st', op, ?_⟩
      change Except.ok _ = Except.ok _
      simp only [Nat.add_assoc]
  | word h hc hw hlast =>
    obtain ⟨hdelim, hparen, hquote, hunquoted⟩ := starting_iff.mp hc
    obtain ⟨hopen, hclose⟩ := parenthesis_eq_false.mp hlast
    rw [parseStep_unquoted h hdelim hparen hquote (isOp_window_unquoted hunquoted),
      readUnquoted_of_ne hw hopen hclose, List.length_append]
    exact ⟨_, _, rfl⟩
  | enclosed h hc hw hlast =>
    obtain ⟨hdelim, hparen, hquote, hunquoted⟩ := starting_iff.mp hc
    obtain ⟨zs, before, rfl⟩ := exists_before h hparen hw hlast
    rw [parseStep_unquoted h hdelim hparen hquote (isOp_window_unquoted hunquoted),
      readUnquoted_of_paren hw (parenthesis_iff.mp hlast), List.length_append]
    exact ⟨_, _, rfl⟩
  | lone h hdelim hc hop hi hbefore hparen =>
    obtain ⟨k, rfl⟩ := Nat.exists_eq_add_one_of_ne_zero hi
    obtain ⟨hquote, hnot⟩ := not_quoting_of_stop hc
    obtain ⟨st', hread⟩ := readUnquoted_lone h hc hbefore hparen st
    rw [h] at hop
    rw [parseStep_unquoted h hdelim hnot hquote hop, hread]
    exact ⟨_, _, rfl⟩

/-- **One round** of the loop takes a part. -/
theorem lexeme_of_parseStep (h : parseStep s i st op = .ok (i', st', op')) :
    ∃ n, Lexeme s i n ∧ i' = i + n := by
  obtain ⟨c, hc, -⟩ := bind_eq_ok h
  obtain ⟨hi, hget⟩ := List.getElem?_eq_some_iff.mp (byteAt_eq_ok.mp hc)
  have hdrop : s.drop i = c :: s.drop (i + 1) := by
    rw [List.drop_eq_getElem_cons hi, hget]
  -- a part at the index is the one that the round takes
  have htakes : ∀ n, Lexeme s i n → ∃ n, Lexeme s i n ∧ i' = i + n := by
    intro n hpart
    obtain ⟨stPart, opPart, hround⟩ := parseStep_of_lexeme hpart hi st op
    rw [h] at hround
    exact ⟨n, hpart, (Prod.mk.inj (Except.ok.inj hround)).1⟩
  by_cases hdelim : delim c = true
  · exact htakes _ (.space hdrop hdelim)
  by_cases hparen : parenthesis c = true
  · exact htakes _ (.parenthesis hdrop hparen)
  by_cases hop : isOp (window (s.drop i)) = ""
  swap
  · exact htakes _ (.operator hop)
  by_cases hquote : quoting c = true
  · exact htakes _ (.quoted hdrop hquote)
  rw [Bool.not_eq_true] at hdelim hparen hquote
  by_cases hunquoted : unquoted c = true
  · obtain ⟨w, last, hw⟩ := exists_last hdrop hunquoted
    have hstart : starting c = true := starting_iff.mpr ⟨hdelim, hparen, hquote, hunquoted⟩
    by_cases hlast : parenthesis last = true
    · exact htakes _ (.enclosed hdrop hstart hw hlast)
    · exact htakes _ (.word hdrop hstart hw (Bool.not_eq_true _ ▸ hlast))
  · rw [Bool.not_eq_true] at hunquoted
    have hword := h
    rw [parseStep_unquoted hdrop hdelim hparen hquote (hdrop ▸ hop)] at hword
    cases hread : readUnquoted s i st with
    | error panic =>
      rw [hread] at hword
      cases hword
    | ok next =>
      obtain ⟨-, hpos, before, hbefore, hnot⟩ := place_of_readUnquoted hdrop hunquoted hread
      exact htakes _ (.lone hdrop hdelim hunquoted hop hpos hbefore hnot)

end Round

/-! ## The whole text -/

section Text

variable {s : List UInt8} {i : ℕ} {st : List TTA} {op : List String}
  {result : List TTA × List String}

theorem Runs.parseFrom_eq (h : Runs s i st op result) : parseFrom s i st op = .ok result := by
  induction h with
  | stop hi => exact parseFrom_of_length_le hi
  | round hstep _ ih => exact (parseFrom_of_step hstep).trans ih

theorem Runs.readable (h : Runs s i st op result) : Readable s i := by
  induction h with
  | stop hi => exact .stop hi
  | round hstep _ ih =>
    obtain ⟨n, hpart, rfl⟩ := lexeme_of_parseStep hstep
    exact .part hpart ih

theorem Readable.runs (h : Readable s i) (st : List TTA) (op : List String) :
    ∃ result, Runs s i st op result := by
  induction h generalizing st op with
  | stop hi => exact ⟨_, .stop hi⟩
  | @part i n hpart _ ih =>
    by_cases hi : i < s.length
    · obtain ⟨st', op', hstep⟩ := parseStep_of_lexeme hpart hi st op
      obtain ⟨result, hruns⟩ := ih st' op'
      exact ⟨result, .round hstep hruns⟩
    · exact ⟨_, .stop (not_lt.mp hi)⟩

/-- **Which texts the parser survives.**

**Proof sketch.** A round of the loop takes one part of the text from the left, whatever is on the
stacks (`parseStep_of_lexeme`, `lexeme_of_parseStep`), so a run to the end is a division of the text
into its parts. -/
theorem survives_iff (src : String) : Survives src ↔ Readable (utf8 src) 0 := by
  constructor
  · rintro ⟨st, op, hruns, -⟩
    exact hruns.readable
  · intro h
    obtain ⟨⟨st, op⟩, hruns⟩ := h.runs [] []
    refine ⟨st, op, hruns, ?_⟩
    rw [parseExpr_eq, hruns.parseFrom_eq]
    rfl

/-- A lone operator and one behind a parenthesis stop the parser. -/
theorem not_survives_lone : ¬ Survives "&" ∧ ¬ Survives "(-" := by
  constructor
  · rintro ⟨st, op, -, hparse⟩
    have hpanic : parseExpr "&" = .error .outOfRange := rfl
    rw [hpanic] at hparse
    cases hparse
  · rintro ⟨st, op, -, hparse⟩
    have hpanic : parseExpr "(-" = .error .outOfRange := rfl
    rw [hpanic] at hparse
    cases hparse

end Text

end Veda.Xapian
