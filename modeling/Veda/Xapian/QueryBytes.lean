import Veda.Xapian.QueryText

set_option autoImplicit false

/-!
# Finding the tokens of a query string

The parser finds the tokens of a query string while it reads it. An operand without quotes goes on
to the next space or operator. A parenthesis at its end is given back, but only one, and other
white space is not noticed at all; a byte of an operator at its end is skipped.

## Main definitions

* `Xapian.Followed`, `Xapian.WordsFollowed` — what has to stand behind an operand without
  quotes.

## Main results

* `Xapian.readUnquoted_of_ne`, `Xapian.readUnquoted_of_paren` — what an operand without
  quotes is read as, whatever follows it.
* `Xapian.parseFrom_items` — where the operands are followed as they have to be, the loop feeds
  the tokens to the machine.
-/

namespace Veda.Xapian

open Veda.Lib (utf8 fromUtf8 fromUtf8_utf8 utf8_of_fromUtf8 utf8_append utf8_eq_flatMap utf8_eq_nil
  eq_or_le_of_mem_utf8EncodeChar mem_of_toUInt8_mem_utf8)
open Veda.Lib.Precedence

/-! ## Looking for an operator -/

/-- The bytes in which an operator is looked for, among the bytes from an index on. -/
def window : List UInt8 → List UInt8
  | [] => []
  | [a] => if a = '='.toUInt8 then [a] else []
  | [a, b] => if a = '='.toUInt8 ∧ b = '='.toUInt8 then [a, b] else [a]
  | a :: b :: c :: _ => if a = '='.toUInt8 ∧ c = '='.toUInt8 then [a, b, c] else [a, b]

/-- The bytes of an operator. -/
def Op.bytes : Op → List UInt8
  | equal => ['='.toUInt8, '='.toUInt8]
  | inSubclasses => ['='.toUInt8, '='.toUInt8, '='.toUInt8]
  | notEqual => ['!'.toUInt8, '='.toUInt8]
  | fullText => ['='.toUInt8, '*'.toUInt8]
  | fullTextPlus => ['='.toUInt8, '+'.toUInt8]
  | less => ['<'.toUInt8]
  | greater => ['>'.toUInt8]
  | lessEqual => ['<'.toUInt8, '='.toUInt8]
  | greaterEqual => ['>'.toUInt8, '='.toUInt8]
  | and => ['&'.toUInt8, '&'.toUInt8]
  | or => ['|'.toUInt8, '|'.toUInt8]

theorem utf8_text (o : Op) : utf8 o.text = o.bytes := by
  cases o <;> rfl

section Window

variable {s rest : List UInt8} {i : ℕ} {c x : UInt8}

theorem byteAt_drop (h : s.drop i = rest) (k : ℕ) (hk : rest[k]? = some c) :
    byteAt s (i + k) = .ok c := by
  rw [byteAt_eq_ok, ← List.getElem?_drop, h, hk]

theorem length_of_drop (h : s.drop i = c :: rest) : s.length = i + rest.length + 1 := by
  have hlen := congrArg List.length h
  rw [List.length_drop, List.length_cons] at hlen
  omega

theorem slice_drop (h : s.drop i = rest) {k n : ℕ} (hk : k ≤ n) (hn : n ≤ rest.length)
    (hi : i ≤ s.length) : slice s (i + k) (i + n) = .ok ((rest.drop k).take (n - k)) := by
  have hlen := congrArg List.length h
  rw [List.length_drop] at hlen
  refine slice_eq_ok.mpr ⟨⟨by omega, by omega⟩, ?_⟩
  rw [← h, List.drop_drop, Nat.add_sub_add_left]

theorem opWindow_of_last {k : ℕ} (h : s.drop i = c :: rest) (hlast : (c :: rest)[k]? = some x)
    (hk : (if i + 2 ≥ s.length then s.length - 1 else i + 2) = i + k) :
    opWindow s i = .ok
      ((c :: rest).take (if c = '='.toUInt8 ∧ x = '='.toUInt8 then k + 1 else k)) := by
  have hlen := length_of_drop h
  have hle : k < (c :: rest).length := (List.getElem?_eq_some_iff.mp hlast).1
  have hfirst : byteAt s i = .ok c := byteAt_drop h 0 rfl
  have hadd : (if c = '='.toUInt8 ∧ x = '='.toUInt8 then i + k + 1 else i + k) =
      i + (if c = '='.toUInt8 ∧ x = '='.toUInt8 then k + 1 else k) := by
    split_ifs <;> rfl
  unfold opWindow
  dsimp only
  rw [hk, hfirst, byteAt_drop h k hlast]
  change slice s (i + 0) (if c = '='.toUInt8 ∧ x = '='.toUInt8 then i + k + 1 else i + k) = _
  rw [hadd, slice_drop h (Nat.zero_le _) (by split_ifs <;> omega) (by omega)]
  rfl

theorem opWindow_eq (h : s.drop i = c :: rest) : opWindow s i = .ok (window (c :: rest)) := by
  have hlen := length_of_drop h
  match rest with
  | [] =>
    rw [opWindow_of_last h rfl (k := 0) (by rw [if_pos] <;> simp [hlen])]
    by_cases hc : c = '='.toUInt8 <;> simp [window, hc]
  | [b] =>
    rw [opWindow_of_last h rfl (k := 1) (by rw [if_pos] <;> simp [hlen])]
    by_cases hc : c = '='.toUInt8 ∧ b = '='.toUInt8
    · rw [window, if_pos hc, if_pos hc]
      rfl
    · rw [window, if_neg hc, if_neg hc]
      rfl
  | b :: d :: rest =>
    rw [opWindow_of_last h rfl (k := 2) (by rw [if_neg]; simp [hlen])]
    by_cases hc : c = '='.toUInt8 ∧ d = '='.toUInt8
    · rw [window, if_pos hc, if_pos hc]
      rfl
    · rw [window, if_neg hc, if_neg hc]
      rfl

theorem isOp_window_op (o : Op) (hx : x ≠ '='.toUInt8) :
    isOp (window (utf8 o.text ++ x :: rest)) = o.text := by
  have htwo : ∀ a b : UInt8, window (a :: b :: x :: rest) = [a, b] :=
    fun a b => if_neg fun h => hx h.2
  have hone : ∀ a : UInt8, a ≠ '='.toUInt8 →
      window (a :: x :: rest) = [a] ∨ window (a :: x :: rest) = [a, x] := by
    intro a ha
    cases rest with
    | nil => exact .inl (if_neg fun h => ha h.1)
    | cons d rest => exact .inr (if_neg fun h => ha h.1)
  rw [utf8_text]
  cases o with
  | less =>
    rcases hone '<'.toUInt8 (by decide) with h | h
    · exact congrArg isOp h
    · exact (congrArg isOp h).trans (by simp +decide [isOp, hx, Op.text])
  | greater =>
    rcases hone '>'.toUInt8 (by decide) with h | h
    · exact congrArg isOp h
    · exact (congrArg isOp h).trans (by simp +decide [isOp, hx, Op.text])
  | inSubclasses =>
    have hthree : window ('='.toUInt8 :: '='.toUInt8 :: '='.toUInt8 :: x :: rest) =
        ['='.toUInt8, '='.toUInt8, '='.toUInt8] := by
      rw [window, if_pos ⟨rfl, rfl⟩]
    exact congrArg isOp hthree
  | _ => exact congrArg isOp (htwo _ _)

theorem isOp_window_of_not (hless : c ≠ '<'.toUInt8) (hgreater : c ≠ '>'.toUInt8)
    (hequal : c ≠ '='.toUInt8) (hnot : c ≠ '!'.toUInt8) (hor : c ≠ '|'.toUInt8)
    (hand : c ≠ '&'.toUInt8) : isOp (window (c :: rest)) = "" := by
  match rest with
  | [] => simp [window, hequal, isOp]
  | [b] => simp [window, hequal, isOp, hless, hgreater]
  | b :: d :: rest => simp [window, hequal, isOp, hless, hgreater, hnot, hor, hand]

/-- What is found among some bytes: nothing, or an operator with which they start. -/
def Found (w : List UInt8) (found : String) : Prop :=
  found = "" ∨ ∃ o : Op, found = o.text ∧ o.bytes <+: w

theorem found_isOp (w : List UInt8) : Found w (isOp w) := by
  have hnone : ∀ w, Found w "" := fun _ => .inl rfl
  have hone : ∀ {a b : UInt8} (o : Op), o.bytes = [a] → Found [a, b] o.text :=
    fun o ho => .inr ⟨o, rfl, ho ▸ ⟨[_], rfl⟩⟩
  have hall : ∀ {w : List UInt8} (o : Op), o.bytes = w → Found w o.text :=
    fun o ho => .inr ⟨o, rfl, ho ▸ List.prefix_refl _⟩
  match w with
  | [] => exact hnone _
  | [a] =>
    refine iteInduction (motive := Found _) (fun h => hall .greater (by rw [h]; rfl)) fun _ => ?_
    exact iteInduction (motive := Found _) (fun h => hall .less (by rw [h]; rfl)) fun _ => hnone _
  | [a, b] =>
    refine iteInduction (motive := Found _)
      (fun h => hall .greaterEqual (by rw [h.1, h.2]; rfl)) fun _ => ?_
    refine iteInduction (motive := Found _)
      (fun h => hall .lessEqual (by rw [h.1, h.2]; rfl)) fun _ => ?_
    refine iteInduction (motive := Found _)
      (fun h => hall .equal (by rw [h.1, h.2]; rfl)) fun _ => ?_
    refine iteInduction (motive := Found _)
      (fun h => hall .notEqual (by rw [h.1, h.2]; rfl)) fun _ => ?_
    refine iteInduction (motive := Found _)
      (fun h => hall .fullText (by rw [h.1, h.2]; rfl)) fun _ => ?_
    refine iteInduction (motive := Found _)
      (fun h => hall .fullTextPlus (by rw [h.1, h.2]; rfl)) fun _ => ?_
    refine iteInduction (motive := Found _)
      (fun h => hall .or (by rw [h.1, h.2]; rfl)) fun _ => ?_
    refine iteInduction (motive := Found _)
      (fun h => hall .and (by rw [h.1, h.2]; rfl)) fun _ => ?_
    refine iteInduction (motive := Found _) (fun h => hone .greater (by rw [h.1]; rfl)) fun _ => ?_
    exact iteInduction (motive := Found _) (fun h => hone .less (by rw [h.1]; rfl))
      fun _ => hnone _
  | [a, b, c] =>
    exact iteInduction (motive := Found _)
      (fun h => hall .inSubclasses (by rw [h.1, h.2.1, h.2.2]; rfl)) fun _ => hnone _
  | a :: b :: c :: d :: w => exact hnone _

theorem window_isPrefix : window rest <+: rest := by
  unfold window
  split
  · exact List.prefix_refl _
  · split_ifs <;> simp
  · split_ifs <;> simp
  · split_ifs <;> simp

end Window

/-! ## The bytes of operands -/

/-- The bytes that delimit operands or group them; all others belong to an operand or to an
operator. -/
def layoutBytes : List UInt8 :=
  [' '.toUInt8, '\t'.toUInt8, '\r'.toUInt8, '\n'.toUInt8, '('.toUInt8, ')'.toUInt8, '\''.toUInt8,
    '`'.toUInt8, '['.toUInt8, ']'.toUInt8]

/-- The bytes of an operand without quotes. -/
def plain (b : UInt8) : Bool := b ∉ layoutBytes && unquoted b

theorem plain_of_wordChar {c : Char} {b : UInt8} (hc : wordChar c = true)
    (hb : b ∈ String.utf8EncodeChar c) : plain b = true := by
  have hall : ∀ n < 256, 128 ≤ n ∨ wordChar (Char.ofNat n) = true →
      plain (UInt8.ofNat n) = true := by decide +kernel
  have h := hall b.toNat b.toNat_lt
  rw [UInt8.ofNat_toNat] at h
  rcases eq_or_le_of_mem_utf8EncodeChar hb with heq | hle
  · refine h (.inr ?_)
    rwa [heq, Char.ofNat_toNat]
  · exact h (.inl hle.1)

theorem plain_of_isWord {text : String} {b : UInt8} (hword : isWord text = true)
    (hb : b ∈ utf8 text) : plain b = true := by
  rw [utf8_eq_flatMap] at hb
  obtain ⟨c, hc, hmem⟩ := List.mem_flatMap.mp hb
  unfold isWord at hword
  rw [Bool.and_eq_true, List.all_eq_true] at hword
  exact plain_of_wordChar (hword.2 c hc) hmem

theorem utf8_ne_nil_of_isWord {text : String} (hword : isWord text = true) : utf8 text ≠ [] := by
  intro h
  rw [utf8_eq_nil.mp h] at hword
  exact absurd hword (by decide)

theorem isWord_of_mem {text : String} {b : UInt8} (hb : b ∈ layoutBytes) (hmem : b ∈ utf8 text) :
    isWord text = false := by
  by_contra hword
  have hplain := plain_of_isWord (Bool.not_eq_false _ ▸ hword) hmem
  unfold plain at hplain
  simp [hb] at hplain

theorem ne_of_plain {b c : UInt8} (hb : plain b = true) (hc : plain c = false) : b ≠ c := by
  rintro rfl
  exact absurd hb (by simp [hc])

theorem unquoted_of_plain {b : UInt8} (hb : plain b = true) : unquoted b = true :=
  (Bool.and_eq_true _ _ ▸ hb).2

theorem not_delim_of_plain {b : UInt8} (hb : plain b = true) : delim b = false := by
  have hspace := ne_of_plain hb (c := ' '.toUInt8) (by decide)
  have htab := ne_of_plain hb (c := '\t'.toUInt8) (by decide)
  have hreturn := ne_of_plain hb (c := '\r'.toUInt8) (by decide)
  have hfeed := ne_of_plain hb (c := '\n'.toUInt8) (by decide)
  simp [delim, hspace, htab, hreturn, hfeed]

/-! ## One token -/

section Tokens

variable {s after : List UInt8} {i : ℕ} {c x : UInt8} {st : List TTA} {op : List String}

theorem byteAt_head (h : s.drop i = c :: after) : byteAt s i = .ok c := byteAt_drop h 0 rfl

theorem parseStep_delim (h : s.drop i = c :: after) (hc : delim c = true) :
    parseStep s i st op = .ok (i + 1, st, op) := by
  rw [parseStep, byteAt_head h]
  exact if_pos hc

theorem parseStep_opening (h : s.drop i = '('.toUInt8 :: after) :
    parseStep s i st op = .ok (i + 1, st, "(" :: op) := by
  rw [parseStep, byteAt_head h]
  rfl

theorem parseStep_closing (h : s.drop i = ')'.toUInt8 :: after) :
    parseStep s i st op = .ok (i + 1, closeParen st op) := by
  rw [parseStep, byteAt_head h]
  rfl

theorem parseStep_token (h : s.drop i = c :: after) (hdelim : delim c = false)
    (hopen : c ≠ '('.toUInt8) (hclose : c ≠ ')'.toUInt8) :
    parseStep s i st op =
      if isOp (window (c :: after)) ≠ "" then
        .ok (i + ((utf8 (isOp (window (c :: after)))).length - 1) + 1,
          (popOps (isOp (window (c :: after))) st op).1,
          isOp (window (c :: after)) :: (popOps (isOp (window (c :: after))) st op).2)
      else (readOperand s i st).map fun next => (next.1 + 1, next.2, op) := by
  rw [parseStep, byteAt_head h]
  change (if delim c = true then _ else if c = '('.toUInt8 then _ else
    if c = ')'.toUInt8 then _ else _) = _
  rw [if_neg (by simp [hdelim]), if_neg hopen, if_neg hclose, opWindow_eq h]
  change (if isOp (window (c :: after)) ≠ "" then _ else _) = _
  refine if_congr Iff.rfl rfl ?_
  cases readOperand s i st <;> rfl

theorem parseStep_operator (o : Op) (h : s.drop i = utf8 o.text ++ x :: after)
    (hx : x ≠ '='.toUInt8) :
    parseStep s i st op = .ok (i + (utf8 o.text).length, (popOps o.text st op).1,
      o.text :: (popOps o.text st op).2) := by
  obtain ⟨c, cs, hbytes, hdelim, hopen, hclose⟩ : ∃ c cs, utf8 o.text = c :: cs ∧
      delim c = false ∧ c ≠ '('.toUInt8 ∧ c ≠ ')'.toUInt8 := by
    rw [utf8_text]
    cases o <;> exact ⟨_, _, rfl, by decide⟩
  have hfound : isOp (window (c :: (cs ++ x :: after))) = o.text := by
    rw [← List.cons_append, ← hbytes]
    exact isOp_window_op o hx
  have hne : o.text ≠ "" := by
    cases o <;> decide
  rw [hbytes, List.cons_append] at h
  rw [parseStep_token h hdelim hopen hclose, hfound, if_pos hne, hbytes]
  rfl

theorem parseStep_operand (h : s.drop i = c :: after) (hdelim : delim c = false)
    (hopen : c ≠ '('.toUInt8) (hclose : c ≠ ')'.toUInt8)
    (hfound : isOp (window (c :: after)) = "") :
    parseStep s i st op =
      (if c = '\''.toUInt8 ∨ c = '`'.toUInt8 ∨ c = '['.toUInt8 then readQuoted s i c st
        else readUnquoted s i st).map fun next => (next.1 + 1, next.2, op) := by
  have hspace : advance (fun c => c = ' '.toUInt8) s i = i := by
    refine advance_of_not (byteAt_eq_ok.mp (byteAt_head h)) (decide_eq_false ?_)
    rintro rfl
    cases hdelim
  rw [parseStep_token h hdelim hopen hclose, hfound, if_neg (not_not_intro rfl), readOperand,
    hspace, byteAt_head h]
  rfl

theorem takeWhile_append_cons {fits : UInt8 → Bool} {w : List UInt8}
    (hw : ∀ b ∈ w, fits b = true) (hc : fits c = false) :
    (w ++ c :: after).takeWhile fits = w := by
  rw [List.takeWhile_append_of_pos hw, List.takeWhile_cons_of_neg (by simp [hc]),
    List.append_nil]

theorem readQuoted_eq {tag closed : UInt8} {text : String}
    (htag : (if tag = '\''.toUInt8 ∨ tag = '`'.toUInt8 then tag else ']'.toUInt8) = closed)
    (hclosed : closed ∉ utf8 text) (h : s.drop i = tag :: (utf8 text ++ closed :: after)) :
    readQuoted s i tag st = .ok (i + (utf8 text).length + 1,
      TTA.new text none none (if tag = '['.toUInt8 then .range else .quoted) :: st) := by
  have hlen := length_of_drop h
  have hdrop : s.drop (i + 1) = utf8 text ++ closed :: after := by
    rw [← List.drop_drop, h]
    rfl
  have hwhile : (utf8 text ++ closed :: after).takeWhile (fun c => c ≠ closed) = utf8 text :=
    takeWhile_append_cons (fun b hb => decide_eq_true (ne_of_mem_of_not_mem hb hclosed))
      (decide_eq_false (not_not_intro rfl))
  have hadvance : advance (fun c => c ≠ closed) s (i + 1) = i + 1 + (utf8 text).length := by
    rw [advance, hdrop, hwhile]
  have hslice : slice s (i + 1) (i + 1 + (utf8 text).length) = .ok (utf8 text) := by
    refine (slice_drop hdrop (Nat.zero_le _) (by simp) (by omega)).trans ?_
    rw [List.drop_zero, Nat.sub_zero, List.take_left]
  rw [readQuoted, htag, hadvance, hslice]
  change Except.ok (_, pushOperand _ _ _) = _
  rw [pushOperand, fromUtf8_utf8, Nat.add_right_comm]

theorem parseStep_quoted (decor : Decor) {opening closing : Char} {text : String}
    (hopening : opening = '\'' ∧ closing = '\'' ∧ decor = .quoted ∨
      opening = '`' ∧ closing = '`' ∧ decor = .quoted ∨
      opening = '[' ∧ closing = ']' ∧ decor = .range)
    (hclosed : closing ∉ text.toList)
    (h : s.drop i = opening.toUInt8 :: (utf8 text ++ closing.toUInt8 :: after)) :
    parseStep s i st op =
      .ok (i + ((utf8 text).length + 2), TTA.new text none none decor :: st, op) := by
  have hbyte : closing.toUInt8 ∉ utf8 text := by
    refine fun hmem => hclosed (mem_of_toUInt8_mem_utf8 ?_ hmem)
    obtain ⟨-, rfl, -⟩ | ⟨-, rfl, -⟩ | ⟨-, rfl, -⟩ := hopening <;> decide
  obtain ⟨rfl, rfl, rfl⟩ | ⟨rfl, rfl, rfl⟩ | ⟨rfl, rfl, rfl⟩ := hopening
  all_goals
    rw [parseStep_operand h (by decide) (by decide) (by decide)
      (isOp_window_of_not (by decide) (by decide) (by decide) (by decide) (by decide)
        (by decide)), if_pos (by decide), readQuoted_eq (by decide) hbyte h]
    rfl

theorem slice_prefix {seg tail : List UInt8} (h : s.drop i = seg ++ tail) (hi : i ≤ s.length) :
    slice s i (i + seg.length) = .ok seg := by
  refine (slice_drop h (Nat.zero_le _) (by simp) hi).trans ?_
  rw [List.drop_zero, Nat.sub_zero, List.take_left]

theorem readUnquoted_of_ne {ys : List UInt8} {last : UInt8}
    (h : (s.drop i).takeWhile unquoted = ys ++ [last]) (hopen : last ≠ '('.toUInt8)
    (hclose : last ≠ ')'.toUInt8) :
    readUnquoted s i st =
      .ok (i + (ys ++ [last]).length, pushOperand (ys ++ [last]) .none st) := by
  obtain ⟨tail, htail⟩ : ∃ tail, s.drop i = ys ++ [last] ++ tail :=
    ⟨(s.drop i).dropWhile unquoted, h ▸ List.takeWhile_append_dropWhile.symm⟩
  have hlen : (s.drop i).length = ys.length + (tail.length + 1) := by
    rw [htail]
    simp
  have hi : i ≤ s.length := by
    rw [List.length_drop] at hlen
    omega
  have hadvance : advance unquoted s i = i + (ys ++ [last]).length := by
    rw [advance, h]
  have hlast : byteAt s (i + ys.length) = .ok last := byteAt_drop htail _ (by simp)
  have hminus : minus (i + (ys ++ [last]).length) 1 = .ok (i + ys.length) :=
    minus_eq_ok.mpr (by simp; omega)
  rw [readUnquoted, hadvance, hminus]
  change (byteAt s (i + ys.length) >>= _) = _
  rw [hlast]
  change (if last = '('.toUInt8 ∨ last = ')'.toUInt8 then _ else _) = _
  rw [if_neg (by simp [hopen, hclose]), slice_prefix htail hi]
  rfl

theorem readUnquoted_of_paren {zs : List UInt8} {before last : UInt8}
    (h : (s.drop i).takeWhile unquoted = zs ++ [before] ++ [last])
    (hparen : last = '('.toUInt8 ∨ last = ')'.toUInt8) :
    readUnquoted s i st = .ok (i + zs.length,
      pushOperand (if before ≠ '\''.toUInt8 then zs ++ [before] else zs) .none st) := by
  obtain ⟨tail, htail⟩ : ∃ tail, s.drop i = zs ++ [before] ++ [last] ++ tail :=
    ⟨(s.drop i).dropWhile unquoted, h ▸ List.takeWhile_append_dropWhile.symm⟩
  have hlen : (s.drop i).length = zs.length + 2 + tail.length := by
    rw [htail]
    simp
    omega
  have hi : i ≤ s.length := by
    rw [List.length_drop] at hlen
    omega
  have hadvance : advance unquoted s i = i + (zs.length + 2) := by
    rw [advance, h]
    simp
  have hlast : byteAt s (i + (zs.length + 1)) = .ok last := byteAt_drop htail _ (by simp)
  have hbefore : byteAt s (i + zs.length) = .ok before := byteAt_drop htail _ (by simp)
  have hone : minus (i + (zs.length + 2)) 1 = .ok (i + (zs.length + 1)) :=
    minus_eq_ok.mpr (by omega)
  have htwo : minus (i + (zs.length + 2)) 2 = .ok (i + zs.length) := minus_eq_ok.mpr (by omega)
  have hslice : slice s i (if before ≠ '\''.toUInt8 then i + (zs.length + 2) - 1
      else i + (zs.length + 2) - 2) =
        .ok (if before ≠ '\''.toUInt8 then zs ++ [before] else zs) := by
    by_cases hquote : before = '\''.toUInt8
    · rw [if_neg (not_not_intro hquote), if_neg (not_not_intro hquote)]
      rw [List.append_assoc, List.append_assoc] at htail
      exact slice_prefix htail hi
    · rw [if_pos hquote, if_pos hquote]
      rw [List.append_assoc] at htail
      have hseg : i + (zs.length + 2) - 1 = i + (zs ++ [before]).length := by
        rw [List.length_append, List.length_singleton]
        omega
      rw [hseg]
      exact slice_prefix htail hi
  rw [readUnquoted, hadvance, hone]
  change (byteAt s (i + (zs.length + 1)) >>= _) = _
  rw [hlast]
  change (if last = '('.toUInt8 ∨ last = ')'.toUInt8 then _ else _) = _
  rw [if_pos hparen, htwo]
  change (byteAt s (i + zs.length) >>= _) = _
  rw [hbefore]
  change (slice s i _ >>= _) = _
  rw [hslice]
  rfl

/-- What has to stand behind an operand without quotes: nothing, a space, or one closing
parenthesis and then the end, a space or an operator. -/
def Followed (after : List UInt8) : Prop :=
  after = [] ∨ after.head? = some ' '.toUInt8 ∨ after.takeWhile unquoted = [')'.toUInt8]

instance (after : List UInt8) : Decidable (Followed after) := inferInstanceAs (Decidable (_ ∨ _))

theorem parseStep_word {text : String} (hword : isWord text = true)
    (h : s.drop i = utf8 text ++ after) :
    parseStep s i st op =
      (readUnquoted s i st).map fun next => (next.1 + 1, next.2, op) := by
  obtain ⟨c, cs, hbytes⟩ := List.exists_cons_of_ne_nil (utf8_ne_nil_of_isWord hword)
  have hc : plain c = true := plain_of_isWord hword (hbytes ▸ List.mem_cons_self)
  rw [hbytes, List.cons_append] at h
  rw [parseStep_operand h (not_delim_of_plain hc) (ne_of_plain hc (by decide))
    (ne_of_plain hc (by decide)), if_neg]
  · simp [ne_of_plain hc (c := '\''.toUInt8) (by decide),
      ne_of_plain hc (c := '`'.toUInt8) (by decide), ne_of_plain hc (c := '['.toUInt8) (by decide)]
  · exact isOp_window_of_not (ne_of_plain hc (by decide)) (ne_of_plain hc (by decide))
      (ne_of_plain hc (by decide)) (ne_of_plain hc (by decide)) (ne_of_plain hc (by decide))
      (ne_of_plain hc (by decide))

theorem takeWhile_word {text : String} (hword : isWord text = true)
    (h : s.drop i = utf8 text ++ after) :
    (s.drop i).takeWhile unquoted = utf8 text ++ after.takeWhile unquoted := by
  rw [h, List.takeWhile_append_of_pos fun b hb => unquoted_of_plain (plain_of_isWord hword hb)]

theorem parseStep_word_of_nil {text : String} (hword : isWord text = true)
    (h : s.drop i = utf8 text ++ after) (hafter : after.takeWhile unquoted = []) :
    parseStep s i st op =
      .ok (i + (utf8 text).length + 1, TTA.new text none none .none :: st, op) := by
  obtain ⟨ys, last, hlast⟩ : ∃ ys last, utf8 text = ys ++ [last] :=
    (List.eq_nil_or_concat' _).resolve_left (utf8_ne_nil_of_isWord hword)
  have hplain : plain last = true := plain_of_isWord hword (by simp [hlast])
  have hwhile := takeWhile_word hword h
  rw [hafter, List.append_nil, hlast] at hwhile
  rw [parseStep_word hword h, readUnquoted_of_ne hwhile (ne_of_plain hplain (by decide))
    (ne_of_plain hplain (by decide)), ← hlast, pushOperand, fromUtf8_utf8]
  rfl

theorem parseFrom_word {text : String} (hword : isWord text = true)
    (h : s.drop i = utf8 text ++ after) (hafter : Followed after) :
    parseFrom s i st op =
      parseFrom s (i + (utf8 text).length) (TTA.new text none none .none :: st) op := by
  have hdrop : s.drop (i + (utf8 text).length) = after := by
    rw [← List.drop_drop, h, List.drop_left]
  obtain rfl | hspace | hparen := hafter
  · have hend : s.length ≤ i + (utf8 text).length := List.drop_eq_nil_iff.mp hdrop
    rw [parseFrom_of_step (parseStep_word_of_nil hword h rfl), parseFrom_of_length_le (by omega),
      parseFrom_of_length_le hend]
  · obtain ⟨rest, rfl⟩ := List.head?_eq_some_iff.mp hspace
    rw [parseFrom_of_step (parseStep_word_of_nil hword h
      (List.takeWhile_cons_of_neg (by decide))), parseFrom_of_step (parseStep_delim hdrop rfl)]
  · obtain ⟨ys, last, hlast⟩ : ∃ ys last, utf8 text = ys ++ [last] :=
      (List.eq_nil_or_concat' _).resolve_left (utf8_ne_nil_of_isWord hword)
    have hplain : plain last = true := plain_of_isWord hword (by simp [hlast])
    have hwhile := takeWhile_word hword h
    rw [hparen, hlast] at hwhile
    refine parseFrom_of_step ?_
    rw [parseStep_word hword h, readUnquoted_of_paren hwhile (.inr rfl),
      if_pos (ne_of_plain hplain (by decide)), ← hlast, pushOperand, fromUtf8_utf8, hlast]
    simp [Except.map, Nat.add_assoc]

theorem parseFrom_token (t : Token Operand Op) (h : s.drop i = utf8 (tokenText t) ++ after)
    (hword : ∀ text hword, t = .operand (.word text hword) → Followed after)
    (hoperator : ∀ o, t = .operator o → ∃ x rest, after = x :: rest ∧ x ≠ '='.toUInt8) :
    parseFrom s i st op = parseFrom s (i + (utf8 (tokenText t)).length)
      (vqlMachine.feed (st, op) t).1 (vqlMachine.feed (st, op) t).2 := by
  cases t with
  | operand a =>
    cases a with
    | word text isWord => exact parseFrom_word isWord h (hword text isWord rfl)
    | quoted quote text closed =>
      have htext : utf8 (tokenText (.operand (.quoted quote text closed))) =
          quote.char.toUInt8 :: (utf8 text ++ [quote.char.toUInt8]) := by
        rw [tokenText, Operand.text, utf8_append, utf8_append]
        cases quote <;> rfl
      rw [htext] at h ⊢
      rw [List.cons_append, List.append_assoc] at h
      rw [parseFrom_of_step (parseStep_quoted .quoted (by cases quote <;> decide) closed h)]
      simp [vqlMachine, Machine.feed, Operand.tree]
    | range text closed =>
      have htext : utf8 (tokenText (.operand (.range text closed))) =
          '['.toUInt8 :: (utf8 text ++ [']'.toUInt8]) := by
        rw [tokenText, Operand.text, utf8_append, utf8_append]
        rfl
      rw [htext] at h ⊢
      rw [List.cons_append, List.append_assoc] at h
      rw [parseFrom_of_step (parseStep_quoted .range (by decide) closed h)]
      simp [vqlMachine, Machine.feed, Operand.tree]
  | operator o =>
    obtain ⟨x, rest, rfl, hx⟩ := hoperator o rfl
    rw [parseFrom_of_step (parseStep_operator o h hx), popOps_eq]
    rfl
  | opening => exact parseFrom_of_step (parseStep_opening h)
  | closing => exact parseFrom_of_step ((parseStep_closing h).trans (by rw [closeParen_eq]; rfl))

theorem utf8_gapText (gap : List Blank) :
    utf8 (gapText gap) = gap.map fun blank => blank.char.toUInt8 := by
  rw [gapText, Veda.Lib.utf8_ofList]
  induction gap with
  | nil => rfl
  | cons blank gap ih =>
    rw [List.map_cons, List.flatMap_cons, ih, List.map_cons]
    cases blank <;> rfl

theorem parseFrom_gap (gap : List Blank) (h : s.drop i = utf8 (gapText gap) ++ after) :
    parseFrom s i st op = parseFrom s (i + (utf8 (gapText gap)).length) st op := by
  rw [utf8_gapText] at h ⊢
  induction gap generalizing i with
  | nil => rfl
  | cons blank gap ih =>
    have hdrop : s.drop (i + 1) = gap.map (fun blank => blank.char.toUInt8) ++ after := by
      rw [← List.drop_drop, h]
      rfl
    rw [parseFrom_of_step (parseStep_delim h (by cases blank <;> rfl)), ih hdrop, List.map_cons,
      List.length_cons, Nat.add_assoc, Nat.add_comm 1]

end Tokens

/-! ## All tokens -/

section Items

variable {s : List UInt8} {i : ℕ} {st : List TTA} {op : List String}
  {gap trailing : List Blank} {t : Token Operand Op} {items : List (List Blank × Token Operand Op)}

/-- Every operand without quotes is followed as it has to be. -/
def WordsFollowed : List (List Blank × Token Operand Op) → List Blank → Prop
  | [], _ => True
  | (_, .operand (.word _ _)) :: items, trailing =>
    Followed (utf8 (itemsText items trailing)) ∧ WordsFollowed items trailing
  | _ :: items, trailing => WordsFollowed items trailing

theorem utf8_itemsText_cons :
    utf8 (itemsText ((gap, t) :: items) trailing) =
      utf8 (gapText gap) ++ (utf8 (tokenText t) ++ utf8 (itemsText items trailing)) := by
  rw [itemsText, utf8_append, utf8_append]

theorem WordsFollowed.tail (h : WordsFollowed ((gap, t) :: items) trailing) :
    WordsFollowed items trailing := by
  cases t with
  | operand a =>
    cases a with
    | word text isWord => exact h.2
    | quoted quote text closed => exact h
    | range text closed => exact h
  | operator o => exact h
  | opening => exact h
  | closing => exact h

theorem exists_tokenText (t : Token Operand Op) :
    ∃ x rest, utf8 (tokenText t) = x :: rest ∧ (t.starts = true → x ≠ '='.toUInt8) ∧
      (t.starts = false → x = ')'.toUInt8 ∨ unquoted x = false) := by
  cases t with
  | operand a =>
    cases a with
    | word text isWord =>
      obtain ⟨x, rest, hbytes⟩ := List.exists_cons_of_ne_nil (utf8_ne_nil_of_isWord isWord)
      have hx : plain x = true := plain_of_isWord isWord (hbytes ▸ List.mem_cons_self)
      exact ⟨x, rest, hbytes, fun _ => ne_of_plain hx (by decide), fun h => (by cases h)⟩
    | quoted quote text closed =>
      refine ⟨quote.char.toUInt8, utf8 text ++ utf8 quote.char.toString, ?_, fun _ => ?_,
        fun h => (by cases h)⟩
      · rw [tokenText, Operand.text, utf8_append, utf8_append]
        cases quote <;> rfl
      · cases quote <;> decide
    | range text closed =>
      refine ⟨'['.toUInt8, utf8 text ++ utf8 "]", ?_, fun _ => by decide, fun h => (by cases h)⟩
      rw [tokenText, Operand.text, utf8_append, utf8_append]
      rfl
  | operator o =>
    obtain ⟨x, rest, hbytes, hx⟩ : ∃ x rest, o.bytes = x :: rest ∧ unquoted x = false := by
      cases o <;> exact ⟨_, _, rfl, by decide⟩
    exact ⟨x, rest, (utf8_text o).trans hbytes, fun h => (by cases h), fun _ => .inr hx⟩
  | opening => exact ⟨'('.toUInt8, [], rfl, fun _ => by decide, fun h => (by cases h)⟩
  | closing => exact ⟨')'.toUInt8, [], rfl, fun h => (by cases h), fun _ => .inl rfl⟩

theorem exists_itemsText_cons :
    ∃ x rest, utf8 (itemsText ((gap, t) :: items) trailing) = x :: rest ∧
      (delim x = true ∨ (t.starts = true → x ≠ '='.toUInt8) ∧
        (t.starts = false → x = ')'.toUInt8 ∨ unquoted x = false)) := by
  obtain ⟨x, rest, hx, hstarts⟩ := exists_tokenText t
  rw [utf8_itemsText_cons, hx, utf8_gapText]
  cases gap with
  | nil => exact ⟨x, _, rfl, .inr hstarts⟩
  | cons blank gap => exact ⟨_, _, rfl, .inl (by cases blank <;> rfl)⟩

theorem exists_after_operator {o : Op} (h : Ordered (.operator o :: items.map Prod.snd)) :
    ∃ x rest, utf8 (itemsText items trailing) = x :: rest ∧ x ≠ '='.toUInt8 := by
  match items with
  | [] => cases h
  | (gap, t) :: items =>
    obtain ⟨x, rest, hx, hdelim | hstarts⟩ := exists_itemsText_cons
    · refine ⟨x, rest, hx, ?_⟩
      rintro rfl
      cases hdelim
    · have ht : t.starts = true := by
        have := h.1
        simpa [Token.ends] using this
      exact ⟨x, rest, hx, hstarts.1 ht⟩

theorem after_operand {a : Operand} {x : UInt8} {rest : List UInt8}
    (h : Ordered (.operand a :: items.map Prod.snd))
    (hafter : utf8 (itemsText items trailing) = x :: rest) :
    delim x = true ∨ x = ')'.toUInt8 ∨ unquoted x = false := by
  match items with
  | [] =>
    rw [itemsText, utf8_gapText] at hafter
    cases trailing with
    | nil => cases hafter
    | cons blank trailing =>
      cases hafter
      exact .inl (by cases blank <;> rfl)
  | (gap, t) :: items =>
    obtain ⟨y, ys, hy, hdelim | hstarts⟩ := exists_itemsText_cons
    · cases hy.symm.trans hafter
      exact .inl hdelim
    · cases hy.symm.trans hafter
      have ht : t.starts = false := by
        have := h.1
        simpa [Token.ends] using this
      exact .inr (hstarts.2 ht)

theorem parseFrom_items (hordered : Ordered (items.map Prod.snd))
    (hfollowed : WordsFollowed items trailing)
    (h : s.drop i = utf8 (itemsText items trailing)) :
    parseFrom s i st op = .ok (vqlMachine.feedAll (items.map Prod.snd) (st, op)) := by
  induction items generalizing i st op with
  | nil =>
    have hgap : s.drop i = utf8 (gapText trailing) ++ [] := by
      rw [h, List.append_nil]
      rfl
    have hend : s.length ≤ i + (utf8 (gapText trailing)).length := by
      rw [← List.drop_eq_nil_iff, ← List.drop_drop, hgap, List.drop_left]
    rw [parseFrom_gap trailing hgap, parseFrom_of_length_le hend]
    rfl
  | cons item items ih =>
    obtain ⟨gap, t⟩ := item
    rw [utf8_itemsText_cons] at h
    have hdrop : s.drop (i + (utf8 (gapText gap)).length) =
        utf8 (tokenText t) ++ utf8 (itemsText items trailing) := by
      rw [← List.drop_drop, h, List.drop_left]
    have hnext : s.drop (i + (utf8 (gapText gap)).length + (utf8 (tokenText t)).length) =
        utf8 (itemsText items trailing) := by
      rw [← List.drop_drop, hdrop, List.drop_left]
    have hword : ∀ text isWord, t = .operand (.word text isWord) →
        Followed (utf8 (itemsText items trailing)) := by
      rintro text isWord rfl
      exact hfollowed.1
    have hoperator : ∀ o, t = .operator o → ∃ x rest,
        utf8 (itemsText items trailing) = x :: rest ∧ x ≠ '='.toUInt8 := by
      rintro o rfl
      exact exists_after_operator hordered
    rw [parseFrom_gap gap h, parseFrom_token t hdrop hword hoperator,
      ih hordered.tail hfollowed.tail hnext]
    rfl

end Items

end Veda.Xapian
