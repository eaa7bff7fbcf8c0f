import Veda.Xapian.QueryBytes

set_option autoImplicit false

/-!
# Which query strings are read as they are meant

Every tree that the parser builds is made of bytes of the query string, each of which is used once.
Where an operand without quotes is not followed as it has to be, a byte is skipped, or it becomes
part of a text that no operand can have; then the tree of the expression can no longer come out,
whatever the rest of the string is. Where all operands are followed as they have to be, the tokens
decide.

## Main definitions

* `Xapian.byteCount` — weights that count a byte.

## Main results

* `Xapian.total_parseStep_le` — no round creates a byte.
* `Xapian.total_lt_of_not_wordsFollowed` — where an operand is not followed as it has to be, a
  byte of an operator or of an operand is lost.
* `Xapian.parseExpr_eq_tree_iff` — which query strings are read as the expression they write.
-/

namespace Veda.Xapian

open Veda.Lib (utf8 fromUtf8 utf8_of_fromUtf8 utf8_append utf8_eq_nil bind_eq_ok)
open Veda.Lib.Precedence

/-! ## Bytes that are lost -/

/-- Weights that count a byte. -/
def byteCount (b : UInt8) : Weighing vqlMachine :=
  treeWeighing (fun text => (utf8 text).count b) (fun op => (utf8 op).count b)

section Lost

variable {s : List UInt8} {i i' : ℕ} {b : UInt8} {st st' : List TTA} {op op' : List String}

theorem total_pushOperand_le (text : List UInt8) (decor : Decor) :
    (byteCount b).total (pushOperand text decor st) op ≤
      text.count b + (byteCount b).total st op := by
  unfold pushOperand
  cases htext : fromUtf8 text with
  | none => exact Nat.le_add_left _ _
  | some t =>
    have hle : (byteCount b).operand (TTA.new t none none decor) ≤ text.count b := by
      rw [← utf8_of_fromUtf8 htext]
      change (if properOperand decor t = true then (utf8 t).count b else 0) ≤ _
      split_ifs
      · exact le_rfl
      · exact Nat.zero_le _
    exact ((byteCount b).total_cons _ _ _).trans_le (Nat.add_le_add_right hle _)

theorem count_drop_le {j : ℕ} (h : i ≤ j) : (s.drop j).count b ≤ (s.drop i).count b := by
  obtain ⟨k, rfl⟩ := Nat.exists_eq_add_of_le h
  rw [← List.drop_drop]
  exact (List.drop_sublist _ _).count_le _

theorem count_slice_le {k e : ℕ} {text : List UInt8} (hk : i ≤ k) (he : e ≤ i')
    (h : slice s k e = .ok text) :
    text.count b + (s.drop i').count b ≤ (s.drop i).count b := by
  obtain ⟨⟨hle, -⟩, rfl⟩ := slice_eq_ok.mp h
  have hsplit : (s.drop k).count b =
      ((s.drop k).take (e - k)).count b + (s.drop e).count b := by
    have hdrop : (s.drop k).drop (e - k) = s.drop e := by
      rw [List.drop_drop, Nat.add_sub_cancel' hle]
    rw [← hdrop, ← List.count_append, List.take_append_drop]
  have hrest : (s.drop i').count b ≤ (s.drop e).count b := count_drop_le he
  have hstart : (s.drop k).count b ≤ (s.drop i).count b := count_drop_le hk
  omega

theorem exists_drop_of_opWindow {w : List UInt8} (hw : opWindow s i = .ok w) (hop : isOp w ≠ "") :
    ∃ tail, s.drop i = utf8 (isOp w) ++ tail := by
  obtain ⟨c, hc, -⟩ := bind_eq_ok hw
  obtain ⟨hi, hget⟩ := List.getElem?_eq_some_iff.mp (byteAt_eq_ok.mp hc)
  have hdrop : s.drop i = c :: s.drop (i + 1) := hget ▸ List.drop_eq_getElem_cons hi
  rw [opWindow_eq hdrop] at hw
  cases hw
  obtain ⟨o, ho, hprefix⟩ := (found_isOp (window (c :: s.drop (i + 1)))).resolve_left hop
  obtain ⟨tail, htail⟩ := hprefix.trans window_isPrefix
  exact ⟨tail, by rw [hdrop, ho, utf8_text, htail]⟩

theorem total_parseStep_le (hb : b ∉ layoutBytes)
    (h : parseStep s i st op = .ok (i', st', op')) :
    (byteCount b).total st' op' + (s.drop i').count b ≤
      (byteCount b).total st op + (s.drop i).count b := by
  have hcount : (s.drop i').count b ≤ (s.drop i).count b :=
    count_drop_le (lt_of_parseStep h).le
  have hopen : (byteCount b).operator "(" = 0 := by
    refine List.count_eq_zero_of_not_mem fun hmem => hb ?_
    rw [List.mem_singleton.mp hmem]
    decide
  obtain ⟨-, rfl, rfl | rfl⟩ | ⟨-, hclose⟩ | ⟨w, hw, hop, rfl, rfl, rfl⟩ |
    ⟨-, rfl, k, e, text, decor, hk, he, htext, rfl⟩ := parseStep_cases h
  · exact Nat.add_le_add_left hcount _
  · rw [(byteCount b).total_operator, hopen, Nat.zero_add]
    exact Nat.add_le_add_left hcount _
  · have hle := (byteCount b).total_close_le st op
    rw [← closeParen_eq, ← hclose] at hle
    exact Nat.add_le_add hle hcount
  · obtain ⟨tail, htail⟩ := exists_drop_of_opWindow hw hop
    have hpop := (byteCount b).total_reduceTo_le (priority (isOp w)) st op
    have hdrop : s.drop (i + ((utf8 (isOp w)).length - 1) + 1) = tail := by
      have hpos : 0 < (utf8 (isOp w)).length :=
        List.length_pos_of_ne_nil fun hnil => hop (utf8_eq_nil.mp hnil)
      have hadd : i + ((utf8 (isOp w)).length - 1) + 1 = i + (utf8 (isOp w)).length := by omega
      rw [hadd, ← List.drop_drop, htail, List.drop_left]
    have hweight : (byteCount b).operator (isOp w) = (utf8 (isOp w)).count b := rfl
    rw [(byteCount b).total_operator, hweight, hdrop, htail, List.count_append, popOps_eq]
    omega
  · have hpush : (byteCount b).total (pushOperand text decor st) op' ≤
        text.count b + (byteCount b).total st op' := total_pushOperand_le text decor
    have hslice : text.count b + (s.drop i').count b ≤ (s.drop i).count b :=
      count_slice_le hk he htext
    omega

theorem total_parseFrom_le (hb : b ∉ layoutBytes) {n : ℕ} (hn : s.length - i ≤ n)
    (h : parseFrom s i st op = .ok (st', op')) :
    (byteCount b).total st' op' ≤ (byteCount b).total st op + (s.drop i).count b := by
  induction n generalizing i st op with
  | zero =>
    rw [parseFrom_of_length_le (by omega)] at h
    cases h
    exact Nat.le_add_right _ _
  | succ n ih =>
    by_cases hi : i < s.length
    · rw [parseFrom_of_lt hi] at h
      obtain ⟨⟨j, stj, opj⟩, hstep, hrest⟩ := bind_eq_ok h
      have hlt := lt_of_parseStep hstep
      exact (ih (by omega) hrest).trans (total_parseStep_le hb hstep)
    · rw [parseFrom_of_length_le (by omega)] at h
      cases h
      exact Nat.le_add_right _ _

theorem total_pushOperand_of_mem {x : UInt8} {text : List UInt8} (hx : x ∈ layoutBytes)
    (hmem : x ∈ text) :
    (byteCount b).total (pushOperand text .none st) op = (byteCount b).total st op := by
  unfold pushOperand
  cases htext : fromUtf8 text with
  | none => rfl
  | some t =>
    have hzero : (byteCount b).operand (TTA.new t none none .none) = 0 := by
      have hword := isWord_of_mem hx ((utf8_of_fromUtf8 htext).symm ▸ hmem)
      exact if_neg (by simp [properOperand, hword])
    exact ((byteCount b).total_cons _ _ _).trans (by rw [hzero, Nat.zero_add])

theorem readUnquoted_run {text : String} {after run : List UInt8} {x : UInt8}
    (hword : isWord text = true) (h : s.drop i = utf8 text ++ after)
    (hrun : after.takeWhile unquoted = x :: run) (hquote : x ≠ '\''.toUInt8)
    (hopen : x ≠ '('.toUInt8) (hclose : x :: run ≠ [')'.toUInt8]) :
    ∃ j read, readUnquoted s i st = .ok (j, pushOperand read .none st) ∧ x ∈ read := by
  have hwhile := takeWhile_word hword h
  rw [hrun] at hwhile
  obtain ⟨ys, last, hlast⟩ : ∃ ys last, x :: run = ys ++ [last] :=
    (List.eq_nil_or_concat' _).resolve_left (List.cons_ne_nil x run)
  rw [hlast, ← List.append_assoc] at hwhile
  by_cases hparen : last = '('.toUInt8 ∨ last = ')'.toUInt8
  · -- The parenthesis is given back, but there is a byte before it that is not.
    have hys : x ∈ ys := by
      cases ys with
      | nil =>
        obtain ⟨rfl, rfl⟩ := List.cons.inj hlast
        exact (hparen.elim hopen fun heq => hclose (heq ▸ rfl)).elim
      | cons y ys => exact (List.cons.inj hlast).1 ▸ List.mem_cons_self
    obtain ⟨zs, before, hbefore⟩ : ∃ zs before, utf8 text ++ ys = zs ++ [before] :=
      (List.eq_nil_or_concat' _).resolve_left
        (List.append_ne_nil_of_left_ne_nil (utf8_ne_nil_of_isWord hword) _)
    rw [hbefore] at hwhile
    have hmem : x ∈ zs ++ [before] := hbefore ▸ List.mem_append_right _ hys
    refine ⟨_, _, readUnquoted_of_paren hwhile hparen, ?_⟩
    split_ifs with heq
    · exact hmem
    · refine (List.mem_append.mp hmem).resolve_right fun hin => hquote ?_
      exact (List.mem_singleton.mp hin).trans (not_not.mp heq)
  · refine ⟨_, _, readUnquoted_of_ne hwhile (fun heq => hparen (.inl heq))
      (fun heq => hparen (.inr heq)), ?_⟩
    rw [List.append_assoc, ← hlast]
    exact List.mem_append_right _ List.mem_cons_self

theorem total_parseStep_lt {text : String} {after : List UInt8} (hword : isWord text = true)
    (h : s.drop i = utf8 text ++ after) (hafter : ¬ Followed after)
    (hhead : ∀ x rest, after = x :: rest →
      delim x = true ∨ x = ')'.toUInt8 ∨ unquoted x = false)
    (hstep : parseStep s i st op = .ok (i', st', op')) :
    ∃ b ∉ layoutBytes, (byteCount b).total st' op' + (s.drop i').count b <
      (byteCount b).total st op + (s.drop i).count b := by
  match after with
  | [] => exact absurd (.inl rfl) hafter
  | x :: rest =>
    by_cases hx : unquoted x = true
    · have hlayout : x ∈ layoutBytes ∧ x ≠ '\''.toUInt8 ∧ x ≠ '('.toUInt8 := by
        rcases hhead x rest rfl with hdelim | rfl | hstop
        · simp only [delim, Bool.or_eq_true, decide_eq_true_eq] at hdelim
          obtain ((rfl | rfl) | rfl) | rfl := hdelim <;> decide
        · decide
        · exact absurd hx (by simp [hstop])
      have hrun : x :: rest.takeWhile unquoted ≠ [')'.toUInt8] :=
        fun heq => hafter (.inr (.inr ((List.takeWhile_cons_of_pos hx).trans heq)))
      obtain ⟨j, read, hread, hmem⟩ : ∃ j read,
          readUnquoted s i st = .ok (j, pushOperand read .none st) ∧ x ∈ read :=
        readUnquoted_run hword h (List.takeWhile_cons_of_pos hx) hlayout.2.1 hlayout.2.2 hrun
      rw [parseStep_word hword h, hread] at hstep
      have hlt := lt_of_parseStep (hread ▸ parseStep_word hword h : parseStep s i st op = _)
      cases hstep
      -- No operand is pushed that a query string can have, so the bytes of the text are lost.
      obtain ⟨c, cs, hbytes⟩ := List.exists_cons_of_ne_nil (utf8_ne_nil_of_isWord hword)
      have hc : plain c = true := plain_of_isWord hword (hbytes ▸ List.mem_cons_self)
      have hb : c ∉ layoutBytes := fun hmem => by simp [plain, hmem] at hc
      have hdrop : s.drop i = c :: s.drop (i + 1) := by
        rw [← List.drop_drop, h, hbytes]
        rfl
      have hcount : (s.drop (j + 1)).count c ≤ (s.drop (i + 1)).count c := count_drop_le hlt
      refine ⟨c, hb, ?_⟩
      rw [total_pushOperand_of_mem hlayout.1 hmem, hdrop, List.count_cons_self]
      exact Nat.add_lt_add_left (Nat.lt_succ_of_le hcount) _
    · -- The byte after the operand is skipped.
      have hb : x ∉ layoutBytes := by
        have hall : layoutBytes.all (fun b => unquoted b || b = ' '.toUInt8) = true := by decide
        intro hmem
        have hspace := List.all_eq_true.mp hall x hmem
        rw [Bool.or_eq_true, decide_eq_true_eq] at hspace
        exact hspace.elim hx fun heq => hafter (.inr (.inl (heq ▸ rfl)))
      rw [parseStep_word_of_nil hword h (List.takeWhile_cons_of_neg hx)] at hstep
      cases hstep
      have hdrop : s.drop (i + (utf8 text).length + 1) = rest := by
        rw [Nat.add_assoc, ← List.drop_drop, h, ← List.drop_drop, List.drop_left]
        rfl
      have hleaf : (byteCount x).operand (TTA.new text none none .none) =
          (utf8 text).count x := if_pos hword
      refine ⟨x, hb, ?_⟩
      rw [hdrop, h, (byteCount x).total_cons, hleaf, List.count_append, List.count_cons_self]
      omega

theorem token_byteCount (hb : b ∉ layoutBytes) (t : Token Operand Op) :
    (byteCount b).token t = (utf8 (tokenText t)).count b := by
  have hzero : ∀ (text : String) {c : UInt8}, utf8 text = [c] → c ∈ layoutBytes →
      (utf8 text).count b = 0 := by
    intro text c htext hc
    refine List.count_eq_zero_of_not_mem fun hmem => hb ?_
    rw [htext, List.mem_singleton] at hmem
    exact hmem ▸ hc
  cases t with
  | operand a =>
    cases a with
    | word text isWord => exact if_pos isWord
    | quoted quote text closed =>
      have hquote : (utf8 quote.char.toString).count b = 0 := by
        cases quote <;> exact hzero _ rfl (by decide)
      rw [tokenText, Operand.text, utf8_append, utf8_append, List.count_append, List.count_append,
        hquote, Nat.zero_add, Nat.add_zero]
      rfl
    | range text closed =>
      rw [tokenText, Operand.text, utf8_append, utf8_append, List.count_append, List.count_append,
        hzero "[" rfl (by decide), hzero "]" rfl (by decide), Nat.zero_add, Nat.add_zero]
      rfl
  | operator o => rfl
  | opening => rfl
  | closing => exact (hzero ")" rfl (by decide)).symm

theorem count_gapText (hb : b ∉ layoutBytes) (gap : List Blank) :
    (utf8 (gapText gap)).count b = 0 := by
  refine List.count_eq_zero_of_not_mem fun hmem => hb ?_
  rw [utf8_gapText] at hmem
  obtain ⟨blank, -, rfl⟩ := List.mem_map.mp hmem
  cases blank <;> decide

variable {gap trailing : List Blank} {t : Token Operand Op}
  {items : List (List Blank × Token Operand Op)}

theorem count_itemsText (hb : b ∉ layoutBytes) :
    (utf8 (itemsText items trailing)).count b =
      ((items.map Prod.snd).map (byteCount b).token).sum := by
  induction items with
  | nil => exact count_gapText hb trailing
  | cons item items ih =>
    obtain ⟨gap, t⟩ := item
    rw [utf8_itemsText_cons, List.count_append, List.count_append, count_gapText hb, ih,
      ← token_byteCount hb, Nat.zero_add]
    rfl

theorem total_lt_of_not_wordsFollowed (hordered : Ordered (items.map Prod.snd))
    (hnot : ¬ WordsFollowed items trailing)
    (h : s.drop i = utf8 (itemsText items trailing))
    (hrun : parseFrom s i st op = .ok (st', op')) :
    ∃ b ∉ layoutBytes, (byteCount b).total st' op' <
      (byteCount b).total st op + (s.drop i).count b := by
  induction items generalizing i st op with
  | nil => exact absurd trivial hnot
  | cons item items ih =>
    obtain ⟨gap, t⟩ := item
    rw [utf8_itemsText_cons] at h
    have hdrop : s.drop (i + (utf8 (gapText gap)).length) =
        utf8 (tokenText t) ++ utf8 (itemsText items trailing) := by
      rw [← List.drop_drop, h, List.drop_left]
    have hcount : ∀ b, (s.drop (i + (utf8 (gapText gap)).length)).count b ≤ (s.drop i).count b :=
      fun b => count_drop_le (Nat.le_add_right _ _)
    rw [parseFrom_gap gap h] at hrun
    by_cases hbad : ∃ text isWord, t = .operand (.word text isWord) ∧
        ¬ Followed (utf8 (itemsText items trailing))
    · obtain ⟨text, isWord, rfl, hafter⟩ := hbad
      have hlt : i + (utf8 (gapText gap)).length < s.length := by
        rw [← not_le, ← List.drop_eq_nil_iff, hdrop]
        exact List.append_ne_nil_of_left_ne_nil (utf8_ne_nil_of_isWord isWord) _
      rw [parseFrom_of_lt hlt] at hrun
      obtain ⟨⟨j, stj, opj⟩, hstep, hrest⟩ := bind_eq_ok hrun
      obtain ⟨b, hb, hlost⟩ := total_parseStep_lt isWord hdrop hafter
        (fun x rest hx => after_operand hordered hx) hstep
      have hle := total_parseFrom_le hb le_rfl hrest
      exact ⟨b, hb, (hle.trans_lt hlost).trans_le (Nat.add_le_add_left (hcount b) _)⟩
    · have hword : ∀ text isWord, t = .operand (.word text isWord) →
          Followed (utf8 (itemsText items trailing)) :=
        fun text isWord ht => not_not.mp fun hafter => hbad ⟨text, isWord, ht, hafter⟩
      have hoperator : ∀ o, t = .operator o → ∃ x rest,
          utf8 (itemsText items trailing) = x :: rest ∧ x ≠ '='.toUInt8 := by
        rintro o rfl
        exact exists_after_operator hordered
      have hnext : s.drop (i + (utf8 (gapText gap)).length + (utf8 (tokenText t)).length) =
          utf8 (itemsText items trailing) := by
        rw [← List.drop_drop, hdrop, List.drop_left]
      have hlater : ¬ WordsFollowed items trailing := by
        refine fun hall => hnot ?_
        cases t with
        | operand a =>
          cases a with
          | word text isWord => exact ⟨hword text isWord rfl, hall⟩
          | quoted quote text closed => exact hall
          | range text closed => exact hall
        | operator o => exact hall
        | opening => exact hall
        | closing => exact hall
      rw [parseFrom_token t hdrop hword hoperator] at hrun
      obtain ⟨b, hb, hlost⟩ := ih hordered.tail hlater hnext hrun
      have hfeed := (byteCount b).total_feed_le (st, op) t
      have := hcount b
      rw [token_byteCount hb] at hfeed
      rw [hdrop, List.count_append] at this
      rw [hnext] at hlost
      dsimp only at hfeed
      exact ⟨b, hb, by omega⟩

end Lost

/-! ## Which query strings are read as they are meant -/

/-- **A query string** is read as the expression that it writes exactly if every operand without
quotes is followed by a space, by the end or by one closing parenthesis and one of these or an
operator, and the operators `>=` are the outermost ones, outside all parentheses. -/
theorem parseExpr_eq_tree_iff {e : Expr} (p : Printing e) :
    parseExpr p.text = .ok (some e.tree) ↔
      WordsFollowed p.items p.trailing ∧ GeFits p.formula := by
  have htree : p.formula.value Operand.tree opTree = e.tree := by
    rw [value_tree, p.value]
  have hordered : Ordered (p.items.map Prod.snd) := p.tokens ▸ p.formula.ordered_tokens
  by_cases hwords : WordsFollowed p.items p.trailing
  · have hparse : parseExpr p.text = .ok (processTokens p.formula).head? := by
      rw [parseExpr_eq, parseFrom_items hordered hwords rfl, p.tokens]
      rfl
    rw [hparse, ← htree, and_iff_right hwords, ← processAll_tokens_iff p.wellParen]
    exact ⟨Except.ok.inj, congrArg _⟩
  · refine ⟨fun h => ?_, fun h => absurd h.1 hwords⟩
    rw [parseExpr_eq] at h
    cases hrun : parseFrom (utf8 p.text) 0 [] [] with
    | error panic =>
      rw [hrun] at h
      cases h
    | ok last =>
      obtain ⟨st, op⟩ := last
      rw [hrun] at h
      obtain ⟨rest, hrest⟩ := List.head?_eq_some_iff.mp (Except.ok.inj h)
      obtain ⟨b, hb, hlost⟩ := total_lt_of_not_wordsFollowed hordered hwords rfl hrun
      -- The tree has all the bytes, and the stacks have fewer.
      have hweight : e.tree.weight (fun text => (utf8 text).count b)
          (fun op => (utf8 op).count b) = (utf8 p.text).count b := by
        have hopening : (byteCount b).token .opening = (utf8 "(").count b := token_byteCount hb _
        have hnone : (utf8 "(").count b = 0 :=
          List.count_eq_zero_of_not_mem fun hmem => hb (List.mem_singleton.mp hmem ▸ by decide)
        rw [Printing.text, count_itemsText hb, p.tokens, ← htree]
        exact weight_value hnone p.formula
      have hfinish : ((processAll st op).map (byteCount b).operand).sum ≤
          (byteCount b).total st op := (byteCount b).sum_finish_le st op
      rw [hrest, List.map_cons, List.sum_cons] at hfinish
      change e.tree.weight _ _ + _ ≤ _ at hfinish
      rw [hweight] at hfinish
      rw [(byteCount b).total_nil, List.drop_zero] at hlost
      omega

/-- `a >= b && c`, where the comparison is the left operand of `&&`. -/
def comparisonAnd : Printing (.binary .and
    (.binary .greaterEqual (.operand (.word "a" (by decide))) (.operand (.word "b" (by decide))))
    (.operand (.word "c" (by decide)))) where
  formula := .binary .and
    (.binary .greaterEqual (.operand (.word "a" (by decide))) (.operand (.word "b" (by decide))))
    (.operand (.word "c" (by decide)))
  value := rfl
  wellParen := by decide
  items := [([], .operand (.word "a" (by decide))), ([.space], .operator .greaterEqual),
    ([.space], .operand (.word "b" (by decide))), ([.space], .operator .and),
    ([.space], .operand (.word "c" (by decide)))]
  tokens := rfl
  trailing := []

/-- `a==b`, without white space. -/
def equalTight : Printing (.binary .equal
    (.operand (.word "a" (by decide))) (.operand (.word "b" (by decide)))) where
  formula := .binary .equal
    (.operand (.word "a" (by decide))) (.operand (.word "b" (by decide)))
  value := rfl
  wellParen := by decide
  items := [([], .operand (.word "a" (by decide))), ([], .operator .equal),
    ([], .operand (.word "b" (by decide)))]
  tokens := rfl
  trailing := []

/-- The operator or operand at the root of what is read. -/
def rootOf (src : String) : Option String :=
  match parseExpr src with
  | .ok (some t) => some t.op
  | _ => none

theorem rootOf_of_eq {src : String} {t : TTA} (h : parseExpr src = .ok (some t)) :
    rootOf src = some t.op := by
  rw [rootOf, h]

/-- `a >= b && c` is read as a comparison of `a` with `b && c`, and `a==b` as the operand `b`. -/
theorem not_parseExpr_eq_tree :
    parseExpr comparisonAnd.text ≠ .ok (some (Expr.tree (.binary .and (.binary .greaterEqual
        (.operand (.word "a" (by decide))) (.operand (.word "b" (by decide))))
        (.operand (.word "c" (by decide)))))) ∧
      parseExpr equalTight.text ≠ .ok (some (Expr.tree (.binary .equal
        (.operand (.word "a" (by decide))) (.operand (.word "b" (by decide)))))) := by
  have hcomparison : comparisonAnd.text = "a >= b && c" := by decide
  have htight : equalTight.text = "a==b" := by decide
  have hfirst : rootOf "a >= b && c" = some ">=" := by decide +kernel
  have hsecond : rootOf "a==b" = some "b" := by decide +kernel
  refine ⟨fun h => ?_, fun h => ?_⟩
  · rw [hcomparison] at h
    exact absurd (hfirst.symm.trans (rootOf_of_eq h)) (by decide)
  · rw [htight] at h
    exact absurd (hsecond.symm.trans (rootOf_of_eq h)) (by decide)

end Veda.Xapian
